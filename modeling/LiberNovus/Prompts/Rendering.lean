import LiberNovus.Prompts.Contract

/-! `render_compiled_prompt`: the prompt as lines that are joined by line feeds. The texts of
the dreams and the sample of the summary stand in it as they are; what else is put in has no
line boundary and no `#`. -/

namespace LiberNovus.Prompts

open Text Search Session

/-- `str` of a `UUID`. -/
def uuidText (u : Uuid) : List Char :=
  let hex := (List.range 32).map fun i => Nat.digitChar (u / 16 ^ (31 - i) % 16)
  hex.take 8 ++ '-' :: (hex.drop 8).take 4 ++ '-' :: (hex.drop 12).take 4 ++
    '-' :: (hex.drop 16).take 4 ++ '-' :: hex.drop 20

def formatList (values : List String) : List Char :=
  if values = [] then "[]".toList
  else '[' :: join ", ".toList (values.map String.toList) ++ [']']

/-- The lines of `[DREAM i]`. -/
def blockLines (entry : DreamEntry) : List (List Char) :=
  ["[DREAM ".toList ++ (toString entry.index).toList ++ [']'],
    "text: ".toList ++ entry.text.toList,
    "timestamp: ".toList ++ entry.timestamp.toList]

def entryLines (entry : DreamEntry) : List (List Char) := blockLines entry ++ [[]]

def contextLines (context : ContextBlock) : List (List Char) :=
  ["session_id: ".toList ++ uuidText context.sessionId,
    "user_id: ".toList ++ (toString context.userId).toList,
    "dream_count: ".toList ++ (toString context.dreamCount).toList,
    "session_duration: ".toList ++ context.sessionDuration.toList,
    "last_activity_at: ".toList ++ context.lastActivityAt.toList]

def dreamLines (dreams : List DreamEntry) : List (List Char) :=
  if dreams = [] then ["(no dreams provided)".toList] else dreams.flatMap entryLines

def summaryLines (summary : SessionSummaryBlock) : List (List Char) :=
  ["key_symbols: ".toList ++ formatList summary.keySymbols,
    "recurring_words: ".toList ++ formatList summary.recurringWords,
    "raw_text_sample: ".toList ++ summary.rawTextSample.toList]

/-- What follows the heading of the rules. -/
def fixedLines : List (List Char) :=
  fixedAnalysisInstructions ++ [[], frameworkSection.heading] ++ fixedAnalyticalFramework ++
    [[], outputFormatSection.heading] ++ fixedOutputFormat

def renderCompiledPrompt (compiled : CompiledJungianPrompt) : List Char :=
  unlines ([promptPrefix, [], contextSection.heading] ++ contextLines compiled.context ++
    [[], dreamSection.heading] ++ dreamLines compiled.dreams ++
    [summarySection.heading] ++ summaryLines compiled.summary ++
    [[], instructionsSection.heading] ++ fixedLines)

def buildJungianPrompt (sessionSummary : SessionSummary) (dreams : List Dream)
    (lastActivityAt sessionCreatedAt : Option Time) : List Char :=
  renderCompiledPrompt (compileJungianPrompt sessionSummary dreams lastActivityAt sessionCreatedAt)

/-! ### Quiet text -/

/-- Text without line boundaries and without the sign of a heading. -/
def Quiet (t : List Char) : Prop := ∀ c ∈ t, isBreak c = false ∧ c ≠ '#'

instance (t : List Char) : Decidable (Quiet t) :=
  List.decidableBAll (fun c => isBreak c = false ∧ c ≠ '#') t

theorem Quiet.oneLine {t : List Char} (h : Quiet t) : OneLine t := fun c hc => (h c hc).1

theorem Quiet.no_sign {t : List Char} (h : Quiet t) : '#' ∉ t := fun hc => (h '#' hc).2 rfl

theorem quiet_append {t r : List Char} : Quiet (t ++ r) ↔ Quiet t ∧ Quiet r := by
  simp only [Quiet, List.mem_append, or_imp, forall_and]
  tauto

/-! ### Printed text -/

/-- Printable characters of ASCII, without the signs of headings and of placeholders. -/
def Printed (t : List Char) : Prop :=
  ∀ c ∈ t, 0x20 ≤ c.toNat ∧ c.toNat < 0x7f ∧ c ≠ '#' ∧ c ≠ '['

instance (t : List Char) : Decidable (Printed t) :=
  List.decidableBAll (fun c : Char => 0x20 ≤ c.toNat ∧ c.toNat < 0x7f ∧ c ≠ '#' ∧ c ≠ '[') t

theorem Printed.quiet {t : List Char} (h : Printed t) : Quiet t := by
  intro c hc
  obtain ⟨hlow, hhigh, hsign, -⟩ := h c hc
  refine ⟨?_, hsign⟩
  simp only [isBreak, Bool.or_eq_false_iff, Bool.and_eq_false_iff, decide_eq_false_iff_not,
    beq_eq_false_iff_ne]
  omega

theorem printed_append {t r : List Char} : Printed (t ++ r) ↔ Printed t ∧ Printed r := by
  simp only [Printed, List.mem_append, or_imp, forall_and]
  tauto

theorem toNat_of_isDigit {c : Char} (h : c.isDigit = true) : 0x30 ≤ c.toNat ∧ c.toNat ≤ 0x39 := by
  simp only [Char.isDigit, Bool.and_eq_true, decide_eq_true_eq, ge_iff_le,
    UInt32.le_iff_toNat_le] at h
  exact h

/-- A number is written with digits and a sign, and with at least one digit. -/
theorem mem_repr_int {n : ℤ} {c : Char} (h : c ∈ n.repr.toList) : c.isDigit = true ∨ c = '-' := by
  cases n with
  | ofNat n =>
    have hrepr : (Int.ofNat n).repr = toString n := rfl
    rw [hrepr, Nat.toString_eq_ofList_toDigits, String.toList_ofList] at h
    exact .inl (Nat.isDigit_of_mem_toDigits (by decide) (by decide) h)
  | negSucc n =>
    have hrepr : (Int.negSucc n).repr = "-" ++ toString (n + 1) := rfl
    rw [hrepr, String.toList_append, List.mem_append, Nat.toString_eq_ofList_toDigits] at h
    rcases h with h | h
    · exact .inr (by simpa using h)
    · rw [String.toList_ofList] at h
      exact .inl (Nat.isDigit_of_mem_toDigits (by decide) (by decide) h)

theorem repr_int_ne_nil (n : ℤ) : n.repr.toList ≠ [] := by
  cases n with
  | ofNat n =>
    have hrepr : (Int.ofNat n).repr = toString n := rfl
    rw [hrepr, Nat.toString_eq_ofList_toDigits, String.toList_ofList]
    exact Nat.toDigits_ne_nil
  | negSucc n =>
    have hrepr : (Int.negSucc n).repr = "-" ++ toString (n + 1) := rfl
    rw [hrepr, String.toList_append]
    simp

theorem printed_repr_int (n : ℤ) : Printed n.repr.toList := by
  intro c hc
  rcases mem_repr_int hc with h | rfl
  · have hdigit := toNat_of_isDigit h
    refine ⟨by omega, by omega, ?_, ?_⟩ <;>
    · rintro rfl
      exact absurd h (by decide)
  · decide

theorem printed_toString_nat (n : ℕ) : Printed (toString n).toList := printed_repr_int n

theorem quiet_toString_nat (n : ℕ) : Quiet (toString n).toList := (printed_toString_nat n).quiet

theorem printed_padded (width : ℕ) (n : ℤ) : Printed (padded width n).toList := by
  rw [padded, String.toList_append, String.toList_ofList, printed_append]
  refine ⟨fun c hc => ?_, printed_repr_int n⟩
  rw [List.eq_of_mem_replicate hc]
  decide

theorem printed_strftime (t : Time) : Printed (strftime t).toList := by
  have hdash : Printed "-".toList := by decide
  have hcolon : Printed ":".toList := by decide
  have hspace : Printed " ".toList := by decide
  simp only [strftime, String.toList_append, printed_append, printed_repr_int, printed_padded,
    toString, hdash, hcolon, hspace, and_self]

theorem printed_formatDatetime (t : Option Time) : Printed (formatDatetime t).toList := by
  cases t with
  | none => decide
  | some t => exact printed_strftime t

theorem quiet_formatDatetime (t : Option Time) : Quiet (formatDatetime t).toList :=
  (printed_formatDatetime t).quiet

theorem printed_formatDuration (duration : Option ℤ) : Printed (formatDuration duration).toList := by
  have hh : Printed "h ".toList := by decide
  have hm : Printed "m ".toList := by decide
  have hs : Printed "s".toList := by decide
  cases duration with
  | none => decide
  | some duration =>
    simp only [formatDuration]
    split
    · decide
    · simp only [String.toList_append, printed_append, printed_repr_int, toString, hh, hm, hs,
        and_self]

/-- A time is not empty, and it does not end with white space. -/
theorem strftime_last (t : Time) :
    ∃ x c, (strftime t).toList = x ++ [c] ∧ isSpace c = false := by
  set n := t / 1000000 % 86400 % 60 with hn
  obtain ⟨x, c, hx⟩ : ∃ x c, n.repr.toList = x ++ [c] :=
    ⟨_, _, (List.dropLast_append_getLast (repr_int_ne_nil n)).symm⟩
  have hc : c ∈ n.repr.toList := by rw [hx]; simp
  have hspace : isSpace c = false := by
    rcases mem_repr_int hc with h | rfl
    · have := toNat_of_isDigit h
      simp only [isSpace, Bool.or_eq_false_iff, Bool.and_eq_false_iff, decide_eq_false_iff_not,
        beq_eq_false_iff_ne]
      omega
    · decide
  have hend : ∃ y, (strftime t).toList = y ++ n.repr.toList := by
    simp only [strftime, padded, toString, String.toList_append, ← List.append_assoc]
    exact ⟨_, rfl⟩
  obtain ⟨y, hy⟩ := hend
  exact ⟨y ++ x, c, by rw [hy, hx, List.append_assoc], hspace⟩

theorem formatDatetime_ne_nil (t : Option Time) : (formatDatetime t).toList ≠ [] := by
  cases t with
  | none => decide
  | some t =>
    obtain ⟨x, c, hx, -⟩ := strftime_last t
    rw [formatDatetime, hx]
    simp

theorem formatDuration_ne_nil (duration : Option ℤ) : (formatDuration duration).toList ≠ [] := by
  cases duration with
  | none => decide
  | some duration =>
    simp only [formatDuration]
    split
    · decide
    · rw [String.toList_append]
      exact List.append_ne_nil_of_right_ne_nil _ (by decide)

theorem printed_uuidText (u : Uuid) : Printed (uuidText u) := by
  set hex := (List.range 32).map fun i => Nat.digitChar (u / 16 ^ (31 - i) % 16) with hhex
  have hdigit : ∀ d < 16, 0x20 ≤ (Nat.digitChar d).toNat ∧ (Nat.digitChar d).toNat < 0x7f ∧
      Nat.digitChar d ≠ '#' ∧ Nat.digitChar d ≠ '[' := by decide
  have hp : Printed hex := by
    intro c hc
    obtain ⟨i, -, rfl⟩ := List.mem_map.mp hc
    exact hdigit _ (Nat.mod_lt _ (by decide))
  have htake : ∀ m n, Printed ((hex.drop m).take n) := fun m n c hc =>
    hp c (List.mem_of_mem_drop (List.mem_of_mem_take hc))
  have hcons : ∀ {t}, Printed t → Printed ('-' :: t) := fun ht =>
    printed_append.mpr ⟨(by decide : Printed ['-']), ht⟩
  simp only [uuidText, ← hhex, printed_append]
  exact ⟨⟨⟨⟨fun c hc => hp c (List.mem_of_mem_take hc), hcons (htake 8 4)⟩, hcons (htake 12 4)⟩,
    hcons (htake 16 4)⟩, hcons fun c hc => hp c (List.mem_of_mem_drop hc)⟩

theorem forall_mem_formatList {P : Char → Prop} {values : List String}
    (hsigns : ∀ c ∈ ['[', ']', ',', ' '], P c) (h : ∀ v ∈ values, ∀ c ∈ v.toList, P c) :
    ∀ c ∈ formatList values, P c := by
  simp only [List.forall_mem_cons] at hsigns
  obtain ⟨hopen, hclose, hcomma, hspace, -⟩ := hsigns
  rw [formatList]
  split
  · exact List.forall_mem_cons.mpr ⟨hopen, List.forall_mem_singleton.mpr hclose⟩
  · have hparts : ∀ part ∈ values.map String.toList, ∀ c ∈ part, P c := by
      intro part hp
      obtain ⟨v, hv, rfl⟩ := List.mem_map.mp hp
      exact h v hv
    have hjoin : ∀ c ∈ join ", ".toList (values.map String.toList), P c := forall_mem_join
      (List.forall_mem_cons.mpr ⟨hcomma, List.forall_mem_singleton.mpr hspace⟩) hparts
    rw [List.cons_append, List.forall_mem_cons, List.forall_mem_append]
    exact ⟨hopen, hjoin, List.forall_mem_singleton.mpr hclose⟩

theorem quiet_formatList {values : List String} (h : ∀ v ∈ values, Quiet v.toList) :
    Quiet (formatList values) :=
  forall_mem_formatList (by decide) h

/-- Every line of the context is printed. -/
theorem printed_contextLines (sessionSummary : SessionSummary) (dreams : List Dream)
    (lastActivityAt sessionCreatedAt : Option Time) :
    ∀ l ∈ contextLines
      (compileJungianPrompt sessionSummary dreams lastActivityAt sessionCreatedAt).context,
      Printed l := by
  simp only [contextLines, List.forall_mem_cons, printed_append]
  exact ⟨⟨by decide, printed_uuidText _⟩, ⟨by decide, printed_repr_int _⟩,
    ⟨by decide, printed_toString_nat _⟩, ⟨by decide, printed_formatDuration _⟩,
    ⟨by decide, printed_formatDatetime _⟩, by simp⟩

theorem quiet_contextLines (sessionSummary : SessionSummary) (dreams : List Dream)
    (lastActivityAt sessionCreatedAt : Option Time) :
    ∀ l ∈ contextLines
      (compileJungianPrompt sessionSummary dreams lastActivityAt sessionCreatedAt).context,
      Quiet l := fun l hl =>
  (printed_contextLines sessionSummary dreams lastActivityAt sessionCreatedAt l hl).quiet

end LiberNovus.Prompts

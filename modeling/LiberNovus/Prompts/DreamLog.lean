import LiberNovus.Prompts.Sections

/-! The dream log of a built prompt. The validator sees one block for each dream as long as the
texts are single lines without the next heading. The first text that is not so breaks its own
block, unless it brings a timestamp of its own. -/

namespace LiberNovus.Prompts

open Text Search Results Session

/-- A single line; a carriage return at its end is one boundary with the line feed behind it. -/
def Single (t : List Char) : Prop := ∃ x, OneLine x ∧ (t = x ∨ t = x ++ ['\r'])

/-- The second line looks like the timestamp of a dream. -/
def Forges (t : List Char) : Prop :=
  ∃ l, (splitlines t)[1]? = some l ∧ "timestamp: ".toList <+: l

/-- A single line that does not end the section. -/
def Plain (t : List Char) : Prop := Single t ∧ ¬ summarySection.heading <:+: t

/-! ### Texts -/

section Texts

variable {t x w : List Char} {c : Char}

theorem Single.no_newline (h : Single t) : '\n' ∉ t := by
  obtain ⟨x, hx, h⟩ := h
  have hn : '\n' ∉ x := fun hc => absurd (hx _ hc) (by decide)
  rcases h with rfl | rfl
  · exact hn
  · simp [hn]

theorem not_forges_of_oneLine (h : OneLine t) : ¬ Forges t := by
  rintro ⟨l, hl, -⟩
  cases t with
  | nil => cases hl
  | cons c t =>
    rw [splitlines_oneLine h (List.cons_ne_nil _ _)] at hl
    cases hl

theorem oneLine_timestamp : OneLine "timestamp: ".toList := Quiet.oneLine (by decide)

/-- The timestamp stands behind the first boundary. -/
theorem forges_append_iff (hx : OneLine x) (hc : isBreak c = true) :
    Forges (x ++ c :: w) ↔ "timestamp: ".toList <+: afterBreak c w := by
  rw [Forges, splitlines_append hx hc]
  constructor
  · rintro ⟨l, hl, hp⟩
    cases hs : splitlines (afterBreak c w) with
    | nil => rw [hs] at hl; cases hl
    | cons l' ls =>
      rw [hs] at hl
      cases hl
      exact hp.trans (prefix_of_splitlines hs)
  · intro hp
    obtain ⟨l, ls, hs, hl⟩ := splitlines_of_prefix oneLine_timestamp (by decide) hp
    exact ⟨l, by rw [hs]; rfl, hl⟩

/-- A pattern without a line feed does not reach behind one. -/
theorem prefix_of_prefix_append {p r more : List Char} (hp : '\n' ∉ p)
    (hmore : more = [] ∨ more.head? = some '\n') (h : p <+: r ++ more) : p <+: r := by
  rcases List.prefix_or_prefix_of_prefix h (List.prefix_append r more) with hpre | ⟨w, rfl⟩
  · exact hpre
  · rw [List.prefix_append_right_inj] at h
    cases w with
    | nil => rw [List.append_nil]
    | cons d w =>
      obtain ⟨u, rfl⟩ := h
      rcases hmore with hnil | hhead
      · cases hnil
      · cases hhead
        exact absurd (by simp) hp

theorem Forges.append (h : Forges t) (r : List Char) : Forges (t ++ r) := by
  have hbreak : ¬ OneLine t := fun hone => not_forges_of_oneLine hone h
  obtain ⟨x, c, w, rfl, hx, hc⟩ := exists_break hbreak
  rw [forges_append_iff hx hc] at h
  rw [List.append_assoc, List.cons_append, forges_append_iff hx hc]
  cases w with
  | nil =>
    rw [show afterBreak c [] = [] by simp [afterBreak], List.prefix_nil] at h
    exact absurd h (by decide)
  | cons d w =>
    have hcons : ∀ w, afterBreak c (d :: w) = if c = '\r' ∧ d = '\n' then w else d :: w := by
      simp [afterBreak]
    have happend : afterBreak c (d :: w ++ r) = afterBreak c (d :: w) ++ r := by
      rw [List.cons_append, hcons, hcons]
      split <;> rfl
    rw [happend]
    exact h.trans (List.prefix_append _ _)

end Texts

/-! ### The check of a block -/

section Checks

variable {i : ℕ} {block : List Char} {blocks : List (List Char)}

theorem validateDreamBlock_eq_ok : validateDreamBlock i block = .ok none ↔
    ∃ marker textLine timestampLine digits,
      splitlines block = [marker, textLine, timestampLine] ∧ dreamMarker marker = some digits ∧
        intOfDigits digits = .ok i ∧ "text: ".toList <+: textLine ∧
        "timestamp: ".toList <+: timestampLine := by
  rw [validateDreamBlock]
  split
  · next marker textLine timestampLine hlines =>
    cases hm : dreamMarker marker with
    | none =>
      refine ⟨fun h => absurd h (by simp), ?_⟩
      rintro ⟨m, t, s, d, hl, hd, -⟩
      rw [hlines] at hl
      cases hl
      rw [hm] at hd
      cases hd
    | some digits =>
      simp only [bind_eq_ok]
      constructor
      · rintro ⟨n, hn, h⟩
        split at h
        · cases h
        · next hi =>
          split at h
          · cases h
          · next htext =>
            split at h
            · cases h
            · next hts =>
              rw [not_not] at hi htext hts
              exact ⟨marker, textLine, timestampLine, digits, hlines, hm, by rw [hn, hi], htext,
                hts⟩
      · rintro ⟨m, t, s, d, hl, hd, hn, htext, hts⟩
        rw [hlines] at hl
        cases hl
        rw [hm] at hd
        cases hd
        refine ⟨i, hn, ?_⟩
        rw [if_neg (by simp), if_neg (by simpa using htext), if_neg (by simpa using hts)]
  · next hlines =>
    refine ⟨fun h => absurd h (by simp), ?_⟩
    rintro ⟨m, t, s, d, hl, -⟩
    exact absurd hl (hlines m t s)

theorem validateDreamBlocks_cons : validateDreamBlocks i (block :: blocks) = .ok none ↔
    validateDreamBlock i block = .ok none ∧ validateDreamBlocks (i + 1) blocks = .ok none := by
  rw [validateDreamBlocks, bind_eq_ok]
  constructor
  · rintro ⟨e, he, h⟩
    cases e with
    | some e => cases h
    | none => exact ⟨he, h⟩
  · rintro ⟨he, h⟩
    exact ⟨none, he, h⟩

end Checks

/-! ### Blocks -/

def blockText (entry : DreamEntry) : List Char := unlines (blockLines entry)

def marker (entry : DreamEntry) : List Char :=
  "[DREAM ".toList ++ (toString entry.index).toList ++ [']']

/-- What comes before the text of the dream. -/
def lead (entry : DreamEntry) : List Char := marker entry ++ '\n' :: "text: ".toList

/-- The timestamp is the one of a dream. -/
def Stamped (entry : DreamEntry) : Prop := ∃ t, entry.timestamp = formatDatetime (some t)

section Blocks

variable {entry : DreamEntry} {t x more before after : List Char} {i : ℕ}

theorem blockText_eq (entry : DreamEntry) : blockText entry =
    lead entry ++ (entry.text.toList ++ '\n' :: ("timestamp: ".toList ++ entry.timestamp.toList)) := by
  have hlines : ∀ m p x d : List Char, unlines [m, p ++ x, d] = m ++ '\n' :: p ++ (x ++ '\n' :: d) := by
    simp
  exact hlines _ _ _ _

theorem head?_blockText (entry : DreamEntry) : (blockText entry).head? = some '[' := rfl

theorem quiet_marker (entry : DreamEntry) : Quiet (marker entry) := by
  have hopen : Quiet "[DREAM ".toList := by decide
  have hclose : Quiet [']'] := by decide
  exact quiet_append.mpr ⟨quiet_append.mpr ⟨hopen, quiet_toString_nat _⟩, hclose⟩

theorem no_sign_lead (entry : DreamEntry) : '#' ∉ lead entry := by
  have hm := (quiet_marker entry).no_sign
  simp only [lead, List.mem_append, List.mem_cons]
  rintro (h | h | h)
  · exact hm h
  · exact absurd h (by decide)
  · exact absurd h (by decide)

theorem Stamped.quiet (hs : Stamped entry) : Quiet ("timestamp: ".toList ++ entry.timestamp.toList) := by
  obtain ⟨t, ht⟩ := hs
  rw [ht, quiet_append]
  exact ⟨by decide, quiet_formatDatetime _⟩

theorem Stamped.last (hs : Stamped entry) :
    ∃ y c, entry.timestamp.toList = y ++ [c] ∧ isSpace c = false := by
  obtain ⟨t, ht⟩ := hs
  rw [ht]
  exact strftime_last t

/-- A block begins and ends with something. -/
theorem ends_blockText (hs : Stamped entry) :
    (∀ c ∈ (blockText entry).head?, isSpace c = false) ∧
      ∀ c ∈ (blockText entry).getLast?, isSpace c = false := by
  constructor
  · intro c hc
    rw [head?_blockText] at hc
    cases hc
    decide
  · obtain ⟨y, d, hy, hd⟩ := hs.last
    intro c hc
    have hlast : blockText entry = (lead entry ++ (entry.text.toList ++
        '\n' :: ("timestamp: ".toList ++ y))) ++ [d] := by
      rw [blockText_eq, hy]
      simp
    rw [hlast, List.getLast?_concat] at hc
    cases hc
    exact hd

/-- An entry with a single line of text is one paragraph. -/
theorem paragraph_blockText (hs : Stamped entry) (ht : Single entry.text.toList) :
    ¬ ['\n', '\n'] <:+: blockText entry ∧ (blockText entry).getLast? ≠ some '\n' := by
  constructor
  · refine not_infix_unlines ?_
    simp only [blockLines, List.forall_mem_cons]
    have hm : '\n' ∉ marker entry := fun hc => absurd (quiet_marker entry _ hc).1 (by decide)
    have hd : '\n' ∉ "timestamp: ".toList ++ entry.timestamp.toList := fun hc =>
      absurd (hs.quiet _ hc).1 (by decide)
    refine ⟨⟨by simp, hm⟩, ⟨by simp, ?_⟩, ⟨by simp, hd⟩, by simp⟩
    rw [List.mem_append, not_or]
    exact ⟨by decide, ht.no_newline⟩
  · intro h
    exact ne_newline_of_not_isSpace ((ends_blockText hs).2 _ h) rfl

theorem dreamBlocks_blockText (hs : Stamped entry) (ht : Single entry.text.toList) :
    dreamBlocks (blockText entry) = [blockText entry] := by
  have hstrip : strip (blockText entry) = blockText entry :=
    trim_eq_self (ends_blockText hs).1 (ends_blockText hs).2
  have hne : blockText entry ≠ [] := by
    intro hnil
    have hhead := head?_blockText entry
    rw [hnil] at hhead
    cases hhead
  rw [dreamBlocks, paragraphs_single (paragraph_blockText hs ht).1, List.map_cons, hstrip,
    List.map_nil, List.filter_cons_of_pos (by simpa using hne), List.filter_nil]

theorem rdropWhile_append {p : Char → Bool} (x y : List Char) : (x ++ y).rdropWhile p =
    if y.rdropWhile p = [] then x.rdropWhile p else x ++ y.rdropWhile p := by
  simp only [List.rdropWhile, List.reverse_append, List.dropWhile_append, List.isEmpty_iff,
    List.reverse_eq_nil_iff]
  split
  · rfl
  · rw [List.reverse_append, List.reverse_reverse]

/-- The first block is split off, whatever stands behind it. -/
theorem dreamBlocks_cons (hs : Stamped entry) (ht : Single entry.text.toList) (t : List Char) :
    dreamBlocks ((blockText entry ++ '\n' :: '\n' :: t).rdropWhile (· == '\n')) =
      blockText entry :: dreamBlocks (t.rdropWhile (· == '\n')) := by
  obtain ⟨hin, hlast⟩ := paragraph_blockText hs ht
  have hkeep : (blockText entry).rdropWhile (· == '\n') = blockText entry := by
    rw [List.rdropWhile_eq_self_iff]
    intro hne hc
    exact hlast (by rw [List.getLast?_eq_some_getLast hne]; exact congrArg some (by simpa using hc))
  have hsplit : blockText entry ++ '\n' :: '\n' :: t = (blockText entry ++ ['\n', '\n']) ++ t := by
    simp
  rw [hsplit, rdropWhile_append]
  split
  · next hnil =>
    have hnewlines : ['\n', '\n'].rdropWhile (· == '\n') = [] := by decide
    rw [rdropWhile_append, if_pos hnewlines, hkeep, hnil, dreamBlocks_blockText hs ht]
    rfl
  · have hblock := dreamBlocks_blockText hs ht
    rw [dreamBlocks, paragraphs_single hin] at hblock
    rw [List.append_assoc, List.cons_append, List.cons_append, List.nil_append, dreamBlocks,
      paragraphs_append hin hlast, List.map_cons, ← List.singleton_append, List.filter_append]
    exact congrArg (· ++ _) hblock

/-- The first block starts the text. -/
theorem dreamBlocks_first {c : Char} (hc : isSpace c = false) (t : List Char) :
    ∃ block blocks, dreamBlocks (c :: t) = block :: blocks ∧ block <+: c :: t := by
  have hp : ¬ ['\n', '\n'] <+: c :: t := fun hp =>
    ne_newline_of_not_isSpace hc (List.cons_prefix_cons.mp hp).1.symm
  obtain ⟨l, ls, hl, hpre⟩ := paragraphs_prefix t
  have hfirst : (c :: l).dropWhile isSpace = c :: l :=
    List.dropWhile_cons_of_neg (by rw [hc]; decide)
  have hne : strip (c :: l) ≠ [] := by
    rw [strip, hfirst, Ne, List.rdropWhile_eq_nil_iff]
    exact fun h => absurd (h c List.mem_cons_self) (by rw [hc]; decide)
  refine ⟨strip (c :: l), (ls.map strip).filter (· ≠ []), ?_, ?_⟩
  · rw [dreamBlocks, paragraphs_cons hp, hl, consLine, List.map_cons,
      List.filter_cons_of_pos (by simpa using hne)]
  · rw [strip, hfirst]
    exact (List.rdropWhile_prefix _ _).trans (List.cons_prefix_cons.mpr ⟨rfl, hpre⟩)

/-! ### The first entry that is not a single line -/

/-- A block that passes its check has a single line of text, or one that forges the line of the
timestamp. -/
theorem single_of_prefix {block : List Char} (hb : block <+: lead entry ++ (t ++ more))
    (hmore : more = [] ∨ more.head? = some '\n') (hvalid : validateDreamBlock i block = .ok none) :
    Forges t ∨ Single t ∧ more ≠ [] := by
  obtain ⟨m, l, s, digits, hlines, -, -, -, hts⟩ := validateDreamBlock_eq_ok.mp hvalid
  have hb₀ : block <+: marker entry ++ '\n' :: ("text: ".toList ++ t ++ more) := by
    rwa [lead, List.append_assoc, List.cons_append, ← List.append_assoc] at hb
  obtain ⟨b₁, -, hb₁, -, hlines₁⟩ := splitlines_prefix (quiet_marker entry).oneLine rfl hb₀ hlines
  rw [afterBreak, if_neg (by simp)] at hlines₁
  have htext : OneLine "text: ".toList := Quiet.oneLine (by decide)
  by_cases ht : OneLine t
  · refine .inr ⟨⟨t, ht, .inl rfl⟩, ?_⟩
    rintro rfl
    rw [List.append_nil] at hb₁
    have hone : OneLine b₁ := fun c hc => htext.append ht c (hb₁.subset hc)
    cases b₁ with
    | nil => cases hlines₁
    | cons c b₁ =>
      rw [splitlines_oneLine hone (List.cons_ne_nil _ _)] at hlines₁
      cases hlines₁
  · obtain ⟨x, c, r, rfl, hx, hc⟩ := exists_break ht
    rw [forges_append_iff hx hc]
    rw [← List.append_assoc, List.append_assoc, List.cons_append] at hb₁
    obtain ⟨b₂, -, hb₂, -, hlines₂⟩ := splitlines_prefix (htext.append hx) hc hb₁ hlines₁
    have hp := hts.trans (prefix_of_splitlines hlines₂)
    rw [afterBreak] at hp
    split at hp
    · next hcr =>
      obtain ⟨rfl, hhead⟩ := hcr
      obtain ⟨b₃, hb₃⟩ := List.head?_eq_some_iff.mp hhead
      rw [hb₃] at hp hb₂
      cases r with
      | nil =>
        refine .inr ⟨⟨x, hx, .inr rfl⟩, ?_⟩
        rintro rfl
        exact absurd (List.prefix_nil.mp hb₂) (by simp)
      | cons d r =>
        obtain ⟨hd, hb₄⟩ := List.cons_prefix_cons.mp hb₂
        left
        rw [afterBreak, if_pos ⟨rfl, by rw [← hd]; rfl⟩]
        exact prefix_of_prefix_append (by decide) hmore (hp.trans hb₄)
    · have hr := prefix_of_prefix_append (by decide) hmore (hp.trans hb₂)
      left
      rw [afterBreak, if_neg]
      · exact hr
      · rintro ⟨-, hhead⟩
        obtain ⟨u, rfl⟩ := hr
        cases hhead

/-- The same of the text that starts with the block. -/
theorem single_of_valid (hmore : more = [] ∨ more.head? = some '\n')
    (hvalid : validateDreamBlocks i
      (dreamBlocks ((lead entry ++ (t ++ more)).rdropWhile (· == '\n'))) = .ok none) :
    Forges t ∨ Single t ∧ more ≠ [] := by
  obtain ⟨r, hr⟩ : ∃ r, (lead entry ++ (t ++ more)).rdropWhile (· == '\n') = '[' :: r := by
    have hopen : lead entry ++ (t ++ more) = ['['] ++ (lead entry ++ (t ++ more)).tail := rfl
    have hkeep : ['['].rdropWhile (· == '\n') = ['['] := by decide
    rw [hopen, rdropWhile_append, hkeep]
    split
    · exact ⟨[], rfl⟩
    · exact ⟨_, rfl⟩
  have hpre : '[' :: r <+: lead entry ++ (t ++ more) := hr ▸ List.rdropWhile_prefix _ _
  obtain ⟨block, blocks, hblocks, hblock⟩ := dreamBlocks_first (c := '[') rfl r
  rw [hr, hblocks, validateDreamBlocks_cons] at hvalid
  exact single_of_prefix (hblock.trans hpre) hmore hvalid.1

/-! ### The end of the log -/

/-- The log ends in the text of the entry if the next heading is in it. -/
theorem cut_of_infix (h : summarySection.heading <:+: entry.text.toList) (t : List Char) :
    ∃ x w after, entry.text.toList = x ++ w ∧
      cut summarySection.heading (blockText entry ++ t) = some (lead entry ++ x, after) := by
  obtain ⟨⟨x, y⟩, hxy⟩ := Option.isSome_iff_exists.mp (cut_isSome_iff.mpr h)
  refine ⟨x, summarySection.heading ++ y,
    y ++ ('\n' :: ("timestamp: ".toList ++ entry.timestamp.toList) ++ t), cut_eq_some hxy, ?_⟩
  rw [blockText_eq, List.append_assoc, List.append_assoc,
    summary_isHeading.cut_append (no_sign_lead entry), cut_append hxy]
  rfl

/-- If it is not, the log goes on. -/
theorem cut_of_not_infix (h : ¬ summarySection.heading <:+: entry.text.toList) (t : List Char) :
    cut summarySection.heading (lead entry ++ (entry.text.toList ++ '\n' :: t)) =
      (cut summarySection.heading t).map fun (before, after) =>
        (lead entry ++ (entry.text.toList ++ '\n' :: before), after) := by
  rw [summary_isHeading.cut_append (no_sign_lead entry), cut_skip summary_isHeading.ne_nil
    (summary_isHeading.no_newline (by decide)) h, Option.map_map]
  rfl

theorem cut_blockText (hs : Stamped entry) (h : ¬ summarySection.heading <:+: entry.text.toList)
    (t : List Char) : cut summarySection.heading (blockText entry ++ '\n' :: '\n' :: t) =
      (cut summarySection.heading t).map fun (before, after) =>
        (blockText entry ++ '\n' :: '\n' :: before, after) := by
  have hsign : '#' ∉ "timestamp: ".toList ++ entry.timestamp.toList ++ ['\n', '\n'] := by
    have hq := hs.quiet.no_sign
    rw [List.mem_append, not_or]
    exact ⟨hq, by decide⟩
  have hsplit : ∀ t, blockText entry ++ '\n' :: '\n' :: t =
      lead entry ++ (entry.text.toList ++ '\n' ::
        (("timestamp: ".toList ++ entry.timestamp.toList ++ ['\n', '\n']) ++ t)) := by
    simp only [blockText_eq, List.append_assoc, List.cons_append, List.nil_append, implies_true]
  simp only [hsplit, cut_of_not_infix h, summary_isHeading.cut_append hsign, Option.map_map]
  rfl

end Blocks

/-! ### The log -/

section Log

variable {entries : List DreamEntry} {before after tail : List Char} {i : ℕ}

/-- The log, with an empty line behind each entry. -/
def logText (entries : List DreamEntry) : List Char :=
  entries.flatMap fun entry => blockText entry ++ ['\n', '\n']

theorem logText_cons (entry : DreamEntry) (entries : List DreamEntry) (t : List Char) :
    logText (entry :: entries) ++ t = blockText entry ++ '\n' :: '\n' :: (logText entries ++ t) := by
  simp [logText]

theorem unlines_log {ls : List (List Char)} (h : ls ≠ []) (entries : List DreamEntry) :
    unlines (entries.flatMap entryLines ++ ls) = logText entries ++ unlines ls := by
  induction entries with
  | nil => rfl
  | cons entry entries ih =>
    have hne : blockLines entry ≠ [] := List.cons_ne_nil _ _
    rw [logText_cons, ← ih, List.flatMap_cons, entryLines, List.append_assoc, List.append_assoc,
      List.singleton_append, unlines_append hne (List.cons_ne_nil _ _),
      unlines_cons (List.append_ne_nil_of_right_ne_nil _ h)]
    rfl

/-- The log starts with a marker. -/
theorem logText_ne_nil (h : entries ≠ []) (t : List Char) : ∃ r, logText entries ++ t = '[' :: r := by
  obtain ⟨entry, entries, rfl⟩ := List.exists_cons_of_ne_nil h
  rw [logText_cons]
  exact ⟨_, rfl⟩

/-- Plain entries are the blocks of the log. -/
theorem log_of_plain (hs : ∀ entry ∈ entries, Stamped entry)
    (hplain : ∀ entry ∈ entries, Plain entry.text.toList) (t : List Char) :
    cut summarySection.heading (logText entries ++ t) =
        (cut summarySection.heading t).map (fun (before, after) =>
          (logText entries ++ before, after)) ∧
      dreamBlocks ((logText entries).rdropWhile (· == '\n')) = entries.map blockText := by
  induction entries with
  | nil => exact ⟨by simp [logText], rfl⟩
  | cons entry entries ih =>
    have hs₀ := hs entry List.mem_cons_self
    obtain ⟨hsingle, hno⟩ := hplain entry List.mem_cons_self
    obtain ⟨hcut, hblocks⟩ := ih (fun e he => hs e (List.mem_cons_of_mem _ he))
      fun e he => hplain e (List.mem_cons_of_mem _ he)
    constructor
    · rw [logText_cons, cut_blockText hs₀ hno, hcut, Option.map_map]
      simp only [logText_cons]
      rfl
    · have hlog := logText_cons entry entries []
      rw [List.append_nil, List.append_nil] at hlog
      rw [hlog, dreamBlocks_cons hs₀ hsingle, hblocks, List.map_cons]

/-- If the check passes, the texts are plain: the first text that is not fails it. -/
theorem plain_of_valid (hs : ∀ entry ∈ entries, Stamped entry)
    (hforge : ∀ entry ∈ entries, ¬ Forges entry.text.toList)
    (hcut : cut summarySection.heading (logText entries ++ tail) = some (before, after))
    (hvalid : validateDreamBlocks i (dreamBlocks (before.rdropWhile (· == '\n'))) = .ok none) :
    ∀ entry ∈ entries, Plain entry.text.toList := by
  induction entries generalizing before i with
  | nil => simp
  | cons entry entries ih =>
    have hs₀ := hs entry List.mem_cons_self
    have hforge₀ := hforge entry List.mem_cons_self
    rw [logText_cons] at hcut
    have hno : ¬ summarySection.heading <:+: entry.text.toList := by
      intro hin
      obtain ⟨x, w, after', hx, hcut'⟩ := cut_of_infix hin ('\n' :: '\n' :: (logText entries ++ tail))
      rw [hcut'] at hcut
      cases hcut
      rw [← List.append_nil x] at hvalid
      rcases single_of_valid (.inl rfl) hvalid with hf | ⟨-, hne⟩
      · exact hforge₀ (hx ▸ hf.append w)
      · exact hne rfl
    have hsingle : Single entry.text.toList := by
      have hrest : blockText entry ++ '\n' :: '\n' :: (logText entries ++ tail) =
          lead entry ++ (entry.text.toList ++ '\n' :: (("timestamp: ".toList ++
            entry.timestamp.toList) ++ '\n' :: '\n' :: (logText entries ++ tail))) := by
        simp only [blockText_eq, List.append_assoc, List.cons_append]
      rw [hrest, cut_of_not_infix hno] at hcut
      obtain ⟨⟨b, a⟩, -, h⟩ := Option.map_eq_some_iff.mp hcut
      cases h
      rcases single_of_valid (.inr rfl) hvalid with hf | ⟨hsingle, -⟩
      · exact absurd hf hforge₀
      · exact hsingle
    rw [cut_blockText hs₀ hno] at hcut
    obtain ⟨⟨b, a⟩, hcut, h⟩ := Option.map_eq_some_iff.mp hcut
    cases h
    rw [dreamBlocks_cons hs₀ hsingle, validateDreamBlocks_cons] at hvalid
    have hrest := ih (fun e he => hs e (List.mem_cons_of_mem _ he))
      (fun e he => hforge e (List.mem_cons_of_mem _ he)) hcut hvalid.2
    exact List.forall_mem_cons.mpr ⟨⟨hsingle, hno⟩, hrest⟩

end Log

/-! ### The entries of a compiled prompt -/

section Entries

variable {sessionSummary : SessionSummary} {dreams : List Dream}
  {lastActivityAt sessionCreatedAt : Option Time} {compiled : CompiledJungianPrompt}

theorem stamped_of_compile (hcompiled : compiled =
    compileJungianPrompt sessionSummary dreams lastActivityAt sessionCreatedAt) :
    ∀ entry ∈ compiled.dreams, Stamped entry := by
  intro entry hentry
  rw [hcompiled] at hentry
  obtain ⟨⟨dream, i⟩, -, rfl⟩ := List.mem_map.mp hentry
  exact ⟨dream.createdAt, rfl⟩

/-- The texts are the ones of the dreams. -/
theorem forall_text_iff (hcompiled : compiled =
    compileJungianPrompt sessionSummary dreams lastActivityAt sessionCreatedAt)
    (P : List Char → Prop) :
    (∀ entry ∈ compiled.dreams, P entry.text.toList) ↔ ∀ dream ∈ dreams, P dream.text.toList := by
  have htexts : compiled.dreams.map DreamEntry.text = (sortDreams dreams).map Dream.text := by
    rw [hcompiled, ← List.zipIdx_map_fst 0 (sortDreams dreams), List.map_map]
    simp only [compileJungianPrompt, List.map_map]
    rfl
  have hmem : ∀ text, text ∈ compiled.dreams.map DreamEntry.text ↔ text ∈ dreams.map Dream.text := by
    intro text
    rw [htexts, sortDreams]
    exact ((List.perm_insertionSort _ _).map _).mem_iff
  constructor
  · intro h dream hdream
    obtain ⟨entry, hentry, htext⟩ := List.mem_map.mp ((hmem _).mpr (List.mem_map_of_mem hdream))
    rw [← htext]
    exact h entry hentry
  · intro h entry hentry
    obtain ⟨dream, hdream, htext⟩ := List.mem_map.mp ((hmem _).mp (List.mem_map_of_mem hentry))
    rw [← htext]
    exact h dream hdream

theorem dreams_eq_nil_iff (hcompiled : compiled =
    compileJungianPrompt sessionSummary dreams lastActivityAt sessionCreatedAt) :
    compiled.dreams = [] ↔ dreams = [] := by
  have hlen := length_dreams sessionSummary dreams lastActivityAt sessionCreatedAt
  rw [← hcompiled] at hlen
  rw [← List.length_eq_zero_iff, hlen, List.length_eq_zero_iff]

end Entries

end LiberNovus.Prompts

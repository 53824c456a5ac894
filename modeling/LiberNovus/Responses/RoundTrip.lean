import LiberNovus.Foundation.Json.Quoting
import LiberNovus.Foundation.Text
import LiberNovus.Responses.Parser

/-! An object between prose, bare or in a fenced block. The pattern of a fenced block does not
know where the strings of the object are, and a string may hold fences and braces.

Proved: the object comes back from both exactly when no text between fences that starts and
ends with a brace is taken for it, and it nests no deeper than the stack allows. What else is in
braces between two fences is in part the inside of a string of the object, and it is not the
text of the same object. -/

namespace LiberNovus.Responses

open Json Search

def Prose (t : Str) : Prop := ∀ c ∈ t, c ≠ openBrace ∧ c ≠ closeBrace ∧ c ≠ backtick

abbrev newline : ℕ := 0x0a

/-- `p + s + q`. -/
def bare (p s q : Str) : Str := p ++ (s ++ q)

/-- The object in a block of its own. -/
def inBlock (p s q : Str) : Str :=
  p ++ (fence ++ (text "json\n" ++ (s ++ (newline :: (fence ++ q)))))

/-! ### Splitting -/

section Splitting

variable {p s q x y : Str} {m : ℕ}

theorem split_left (h : p ++ s = x ++ m :: y) (hm : m ∉ p) :
    ∃ x', x = p ++ x' ∧ s = x' ++ m :: y := by
  rcases List.append_eq_append_iff.mp h with ⟨x', hx, hs⟩ | ⟨y', hp, hy⟩
  · exact ⟨x', hx, hs⟩
  · cases y' with
    | nil => exact ⟨[], by simpa using hp.symm, by simpa using hy.symm⟩
    | cons c y' =>
      obtain ⟨rfl, -⟩ := List.cons_eq_cons.mp hy
      exact absurd (by rw [hp]; simp) hm

theorem split_right (h : s ++ q = x ++ m :: y) (hm : m ∉ q) :
    ∃ y', s = x ++ m :: y' ∧ y = y' ++ q := by
  rcases List.append_eq_append_iff.mp h with ⟨x', -, hq⟩ | ⟨y', hs, hy⟩
  · exact absurd (by rw [hq]; simp) hm
  · cases y' with
    | nil => exact absurd (by rw [← show m :: y = q by simpa using hy]; simp) hm
    | cons c y' =>
      obtain ⟨rfl, hrest⟩ := List.cons_eq_cons.mp hy
      exact ⟨y', hs, hrest⟩

/-- What ends with a closing brace does not reach into text without one. -/
theorem split_closeBrace {g c e : Str} (h : s ++ q = g ++ (c ++ e))
    (hc : c.getLast? = some closeBrace) (hq : closeBrace ∉ q) : ∃ d, s = g ++ (c ++ d) := by
  obtain ⟨c', rfl⟩ := List.getLast?_eq_some_iff.mp hc
  obtain ⟨d, hs, -⟩ := split_right (x := g ++ c') (m := closeBrace) (y := e) (by simpa using h) hq
  exact ⟨d, by simpa using hs⟩

end Splitting

theorem Glue.ne {g : Str} (hg : Glue g) {c : ℕ} (hc : c ∈ g) {d : ℕ} (hspace : isSpace d = false)
    (hletter : d ∉ [0x6a, 0x4a, 0x73, 0x53, 0x17f, 0x6f, 0x4f, 0x6e, 0x4e]) : c ≠ d := by
  rintro rfl
  rcases hg c hc with h | h
  · exact absurd (h.symm.trans hspace) (by simp)
  · exact hletter h

theorem Glue.plain {g : Str} (hg : Glue g) : Plain g := by
  intro c hc
  refine ⟨hg.ne hc (by decide) (by decide), ?_⟩
  rintro (h | h)
  · exact hg.ne hc (by decide) (by decide) h
  · exact hg.ne hc (by decide) (by decide) h

/-- A block whose opening fence is in the text, and which is in braces, is in the text. What
follows the text has too few backticks for two fences. -/
theorem block_in_text {s tail a g c b : Str} (h : s ++ tail = a ++ (fence ++ (g ++ (c ++ b))))
    (hb : fence <:+: b) (hc : c.getLast? = some closeBrace) (hhead : tail.head? ≠ some backtick)
    (hcount : tail.count backtick ≤ 3) (hclose : closeBrace ∉ tail) :
    ∃ d, s = a ++ (fence ++ (g ++ (c ++ d))) := by
  rcases List.append_eq_append_iff.mp h with ⟨a', -, htail⟩ | ⟨t, hs, ht⟩
  · exfalso
    obtain ⟨b₁, b₂, rfl⟩ := hb
    rw [htail] at hcount
    simp [List.count_append] at hcount
    omega
  · rcases t with _ | ⟨x₁, _ | ⟨x₂, _ | ⟨x₃, t⟩⟩⟩
    · exact absurd (congrArg List.head? ht).symm hhead
    · exact absurd (congrArg List.head? (List.cons_eq_cons.mp ht).2).symm hhead
    · have ht := (List.cons_eq_cons.mp (List.cons_eq_cons.mp ht).2).2
      exact absurd (congrArg List.head? ht).symm hhead
    · obtain ⟨h₁, ht⟩ := List.cons_eq_cons.mp ht
      obtain ⟨h₂, ht⟩ := List.cons_eq_cons.mp ht
      obtain ⟨h₃, ht⟩ := List.cons_eq_cons.mp ht
      have ht : t ++ tail = g ++ (c ++ b) := ht.symm
      obtain ⟨d, rfl⟩ := split_closeBrace ht hc hclose
      exact ⟨d, by rw [hs, ← h₁, ← h₂, ← h₃]; rfl⟩

/-! ### White space around an object -/

theorem rdropWhile_spaces {s w : Str} (hs : s.getLast? = some closeBrace) (hw : Spaces w) :
    (s ++ w).rdropWhile isSpace = s := by
  obtain ⟨s, rfl⟩ := List.getLast?_eq_some_iff.mp hs
  rw [List.rdropWhile, List.reverse_append,
    List.dropWhile_append_of_pos fun c hc => hw c (List.mem_reverse.mp hc), List.reverse_append]
  simp [show isSpace closeBrace = false by decide]

theorem dropWhile_spaces {s w : Str} (hs : s.head? = some openBrace) (hw : Spaces w) :
    (w ++ s).dropWhile isSpace = s := by
  obtain ⟨s, rfl⟩ := List.head?_eq_some_iff.mp hs
  rw [List.dropWhile_append_of_pos hw]
  rfl

theorem strip_spaces {s w w' : Str} (hs : braced s = true) (hw : Spaces w) (hw' : Spaces w') :
    strip (w ++ (s ++ w')) = s := by
  obtain ⟨hhead, hlast⟩ := braced_iff.mp hs
  have hne : s ≠ [] := by
    rintro rfl
    cases hhead
  refine Text.trim_append hw hw' (fun c hc => ?_) (fun c hc => ?_) hne
  · obtain rfl : openBrace = c := Option.some.inj (hhead.symm.trans hc)
    rfl
  · obtain rfl : closeBrace = c := Option.some.inj (hlast.symm.trans hc)
    rfl

/-! ### The block of an object without a fence -/

theorem matchFenced_of_ne {c : ℕ} {t : Str} (hc : c ≠ backtick) : matchFenced (c :: t) = none := by
  rw [matchFenced, if_neg]
  rw [List.isPrefixOf_iff_prefix]
  rintro ⟨r, hr⟩
  exact hc (List.cons_eq_cons.mp hr).1.symm

theorem finditer_skip {p t : Str} {n : ℕ} (hp : backtick ∉ p) :
    finditer (p.length + n) (p ++ t) = finditer n t := by
  induction p with
  | nil => simp
  | cons c p ih =>
    rw [List.mem_cons, not_or] at hp
    rw [List.length_cons, Nat.add_right_comm, List.cons_append, finditer.eq_def]
    simp only [matchFenced_of_ne (Ne.symm hp.1)]
    exact ih hp.2

theorem matchFenced_block {s q : Str} (hs : braced s = true) (hno : ¬ fence <:+: s) :
    matchFenced (fence ++ (text "json\n" ++ (s ++ (newline :: (fence ++ q))))) = some (s, q) := by
  obtain ⟨hhead, hlast⟩ := braced_iff.mp hs
  have hspaces : Spaces [newline] := by
    intro c hc
    obtain rfl := List.mem_singleton.mp hc
    decide
  have hhead' : (s ++ (newline :: (fence ++ q))).head? = some openBrace := by
    rw [List.head?_append, hhead]
    rfl
  have hskip : skipJson (text "json\n" ++ (s ++ (newline :: (fence ++ q)))) =
      [newline] ++ (s ++ (newline :: (fence ++ q))) := by
    rw [show text "json\n" = [0x6a, 0x73, 0x6f, 0x6e, newline] by decide]
    rfl
  have hcut : cut fence (s ++ (newline :: (fence ++ q))) = some (s ++ [newline], q) := by
    rw [cut_skip (by simp) (by decide) hno, cut_of_prefix]
    rfl
  rw [matchFenced, if_pos (List.isPrefixOf_iff_prefix.mpr (List.prefix_append _ _)),
    List.drop_left, hskip, dropWhile_spaces hhead' hspaces, hcut]
  simp [rdropWhile_spaces hlast hspaces]

theorem find?_block {p s q : Str} (hp : Prose p) (hs : braced s = true) (hno : ¬ fence <:+: s) :
    (fencedBodies (inBlock p s q)).find? braced = some s := by
  obtain ⟨n, hn⟩ : ∃ n, (inBlock p s q).length + 1 = p.length + (n + 1) :=
    ⟨(inBlock p s q).length - p.length, by simp [inBlock]; omega⟩
  have hstrip : strip s = s := by
    have h := strip_spaces hs (fun _ hc => absurd hc List.not_mem_nil) (fun _ hc => absurd hc List.not_mem_nil)
    simpa using h
  rw [fencedBodies, hn, inBlock, finditer_skip fun hmem => (hp _ hmem).2.2 rfl,
    finditer.eq_def]
  simp only [matchFenced_block hs hno, List.map_cons, hstrip]
  exact List.find?_cons_of_pos hs

/-! ### The object in its text -/

section Objects

variable {F : Type} [PyFloat F] {stack : Stack} {d : ℕ}

/-- `parse_json(extract_json(raw)) == v`. -/
def RoundTrips (stack : Stack) (v : Dict F) (raw : Str) : Prop :=
  parsedReply stack raw = .ok v.members

theorem roundTrips_iff_parseJson {v : Dict F} {raw c : Str}
    (h : extractJson F stack.extraction raw = .ok c) :
    RoundTrips stack v raw ↔ parseJson stack.parsing c = .ok v.members := by
  rw [RoundTrips, parsedReply, h]
  rfl

theorem extractJson_block {raw c : Str} (hwhole : braced (strip raw) = false)
    (h : (fencedBodies raw).find? braced = some c) : extractJson F d raw = .ok c := by
  rw [extractJson, hwhole, h]
  rfl

theorem extractJson_prose {raw : Str} (hwhole : braced (strip raw) = false)
    (h : ∀ c ∈ fencedBodies raw, braced c = false) : extractJson F d raw = firstDecoded F d raw := by
  have hnone : (fencedBodies raw).find? braced = none :=
    List.find?_eq_none.mpr fun c hc => by simp [h c hc]
  rw [extractJson, hwhole, hnone]
  rfl

theorem firstDecoded_skip {p t : Str} (hp : openBrace ∉ p) :
    firstDecoded F d (p ++ t) = firstDecoded F d t := by
  induction p with
  | nil => rfl
  | cons c p ih =>
    rw [List.mem_cons, not_or] at hp
    rw [List.cons_append, firstDecoded, if_neg (Ne.symm hp.1), ih hp.2]

theorem firstDecoded_text {s r : Str} {v : Value F} (hs : Reads d s (.value v))
    (hhead : s.head? = some openBrace) : firstDecoded F d (s ++ r) = .ok s := by
  obtain ⟨s, rfl⟩ := List.head?_eq_some_iff.mp hhead
  have hv : rawDecode d (openBrace :: (s ++ r)) = .ok (v, r) := rawDecode_of_reads hs (.inr hhead)
  rw [List.cons_append, firstDecoded, if_pos rfl, hv]
  have htake : (openBrace :: (s ++ r)).take ((openBrace :: (s ++ r)).length - r.length) =
      openBrace :: s := by
    rw [← List.cons_append, List.length_append, Nat.add_sub_cancel, List.take_left]
  exact congrArg Except.ok htake

theorem firstDecoded_deep {d' : ℕ} {s r : Str} {v : Value F} (hs : Reads d' s (.value v))
    (hhead : s.head? = some openBrace) (hd : d < v.depth) :
    firstDecoded F d (s ++ r) = .error .recursion := by
  have hdeep := rawDecode_deep (r := r) hs hhead hd
  obtain ⟨s, rfl⟩ := List.head?_eq_some_iff.mp hhead
  rw [List.cons_append] at hdeep ⊢
  rw [firstDecoded, if_pos rfl, hdeep]

variable [LawfulPyFloat F] {v : Dict F} {s : Str}

theorem reads_dict (hs : dumps (.obj v.members) = some s) :
    Reads (Value.obj v.members).depth s (.value (.obj v.members : Value F)) :=
  reads_dumps hs v.distinct le_rfl

omit [LawfulPyFloat F] in
theorem braced_dict (hs : dumps (.obj v.members) = some s) : braced s = true := by
  rw [dumps, Option.bind_eq_bind, Option.bind_eq_some_iff] at hs
  obtain ⟨parts, -, h⟩ := hs
  cases h
  exact braced_iff.mpr ⟨rfl, by rw [enclose, ← List.cons_append, List.getLast?_concat]⟩

/-- The text itself comes back as the object unless it nests too deep. -/
theorem roundTrips_extracted (hs : dumps (.obj v.members) = some s) {raw : Str}
    (h : extractJson F stack.extraction raw = .ok s) :
    RoundTrips stack v raw ↔ (Value.obj v.members).depth ≤ stack.parsing := by
  rw [roundTrips_iff_parseJson h, parseJson_braced (braced_dict hs)]
  exact ⟨fun hreads => hreads.depth_le, fun hd => (reads_dict hs).mono hd⟩

/-- The text behind prose is decoded, and a text that is too deep for that is too deep to be
parsed. -/
theorem roundTrips_decoded (hs : dumps (.obj v.members) = some s) {raw r : Str}
    (h : extractJson F stack.extraction raw = firstDecoded F stack.extraction (s ++ r)) :
    RoundTrips stack v raw ↔ (Value.obj v.members).depth ≤ stack.parsing := by
  have hhead := (braced_iff.mp (braced_dict hs)).1
  rcases Nat.lt_or_ge stack.extraction (Value.obj v.members).depth with hd | hd
  · have hraises := h.trans (firstDecoded_deep (reads_dict hs) hhead hd)
    refine iff_of_false (fun htrip => ?_) (Nat.not_le.mpr (stack.deeper.trans_lt hd))
    rw [RoundTrips, parsedReply, hraises] at htrip
    cases htrip
  · exact roundTrips_extracted hs (h.trans (firstDecoded_text ((reads_dict hs).mono hd) hhead))

omit [PyFloat F] [LawfulPyFloat F] in
theorem exists_block {raw : Str} (h : ¬ ∀ c ∈ fencedBodies raw, braced c = false) :
    ∃ c, (fencedBodies raw).find? braced = some c := by
  push Not at h
  obtain ⟨c, hmem, hc⟩ := h
  exact Option.isSome_iff_exists.mp
    (List.find?_isSome.mpr ⟨c, hmem, (Bool.not_eq_false _).mp hc⟩)

omit [LawfulPyFloat F] in
/-- A block that does not hold the text of the object gives something else. -/
theorem not_roundTrips_of_block {raw c : Str} (hwhole : braced (strip raw) = false)
    (h : (fencedBodies raw).find? braced = some c)
    (hc : ¬ Reads stack.parsing c (.value (.obj v.members : Value F))) :
    ¬ RoundTrips stack v raw := by
  rw [roundTrips_iff_parseJson (extractJson_block hwhole h),
    parseJson_braced (List.find?_some h)]
  exact hc

/-- Text in braces behind a fence of the text is not the text of the object. -/
theorem not_reads_of_block {a g c e : Str} (hs : dumps (.obj v.members) = some s) (hg : Glue g)
    (h : s = a ++ (fence ++ (g ++ (c ++ e)))) :
    ¬ Reads d c (.value (.obj v.members : Value F)) := by
  intro hc
  have hquoted : s = a ++ [backtick, backtick] ++ backtick :: (g ++ (c ++ e)) := by simp [h]
  exact ne_of_quoted (hquoted ▸ hs) v.distinct hg.plain hc rfl

/-! ### Bare -/

omit [PyFloat F] [LawfulPyFloat F] in
theorem spaces_of_braced {p q : Str} (hp : Prose p) (hq : Prose q)
    (h : braced (strip (bare p s q)) = true) : Spaces p ∧ Spaces q := by
  obtain ⟨hhead, hlast⟩ := braced_iff.mp h
  obtain ⟨w, w', hw, hw', hsplit⟩ := strip_split (bare p s q)
  constructor
  · obtain ⟨t, ht⟩ := List.head?_eq_some_iff.mp hhead
    rw [ht] at hsplit
    obtain ⟨x, rfl, -⟩ := split_left hsplit fun hmem => (hp _ hmem).1 rfl
    exact fun c hc => hw c (List.mem_append_left _ hc)
  · obtain ⟨t, ht⟩ := List.getLast?_eq_some_iff.mp hlast
    rw [ht] at hsplit
    have hsplit : p ++ s ++ q = (w ++ t) ++ closeBrace :: w' := by simpa [bare] using hsplit
    obtain ⟨y, -, rfl⟩ := split_right hsplit fun hmem => (hq _ hmem).2.1 rfl
    exact fun c hc => hw' c (List.mem_append_right _ hc)

/-- A block of the bare wrapping is not the object. -/
theorem not_reads_bare {p q c : Str} (hs : dumps (.obj v.members) = some s) (hp : Prose p)
    (hq : Prose q) (hmem : c ∈ fencedBodies (bare p s q)) (hc : braced c = true) :
    ¬ Reads d c (.value (.obj v.members : Value F)) := by
  obtain ⟨a, g, b, hg, hsplit, hb, -⟩ := mem_fencedBodies hmem
  obtain ⟨a, rfl, hrest⟩ := split_left hsplit fun hmem => (hp _ hmem).2.2 rfl
  have hrest : s ++ q = a ++ (fence ++ (g ++ (c ++ b))) := hrest
  have hcount : q.count backtick = 0 := List.count_eq_zero.mpr fun hmem => (hq _ hmem).2.2 rfl
  obtain ⟨e, he⟩ := block_in_text hrest hb (braced_iff.mp hc).2
    (fun hhead => (hq _ (List.mem_of_head? hhead)).2.2 rfl) (by omega)
    fun hmem => (hq _ hmem).2.1 rfl
  exact not_reads_of_block hs hg he

theorem roundTrips_bare_iff {p q : Str} (hs : dumps (.obj v.members) = some s) (hp : Prose p)
    (hq : Prose q) : RoundTrips stack v (bare p s q) ↔
      ((Spaces p ∧ Spaces q) ∨ ∀ c ∈ fencedBodies (bare p s q), braced c = false) ∧
        (Value.obj v.members).depth ≤ stack.parsing := by
  by_cases hspaces : Spaces p ∧ Spaces q
  · rw [and_iff_right (.inl hspaces)]
    refine roundTrips_extracted hs ?_
    rw [extractJson, bare, strip_spaces (braced_dict hs) hspaces.1 hspaces.2,
      if_pos (braced_dict hs)]
  · have hwhole : braced (strip (bare p s q)) = false :=
      Bool.eq_false_iff.mpr fun h => hspaces (spaces_of_braced hp hq h)
    rw [or_iff_right hspaces]
    by_cases hnone : ∀ c ∈ fencedBodies (bare p s q), braced c = false
    · rw [and_iff_right hnone]
      refine roundTrips_decoded hs (r := q) ?_
      rw [extractJson_prose hwhole hnone, bare, firstDecoded_skip fun hmem => (hp _ hmem).1 rfl]
    · refine iff_of_false ?_ fun h => hnone h.1
      obtain ⟨c, hfind⟩ := exists_block hnone
      exact not_roundTrips_of_block hwhole hfind
        (not_reads_bare hs hp hq (List.mem_of_find?_eq_some hfind) (List.find?_some hfind))

/-! ### In a block -/

omit [PyFloat F] [LawfulPyFloat F] in
theorem not_braced_inBlock {p q : Str} (hp : Prose p) :
    braced (strip (inBlock p s q)) = false := by
  rw [Bool.eq_false_iff]
  intro h
  obtain ⟨w, w', hw, -, hsplit⟩ := strip_split (inBlock p s q)
  obtain ⟨t, ht⟩ := List.head?_eq_some_iff.mp (braced_iff.mp h).1
  rw [ht] at hsplit
  obtain ⟨x, rfl, hrest⟩ := split_left hsplit fun hmem => (hp _ hmem).1 rfl
  cases x with
  | nil => exact absurd (List.cons_eq_cons.mp hrest).1 (by decide)
  | cons c x =>
    obtain ⟨rfl, -⟩ := List.cons_eq_cons.mp hrest
    exact absurd (hw backtick (by simp)) (by decide)

/-- The block of the object itself is the object only when there is no fence in its text; a
block behind a fence of the text is not the object. -/
theorem not_reads_inBlock {p q c : Str} (hs : dumps (.obj v.members) = some s) (hp : Prose p)
    (hq : Prose q) (hfence : fence <:+: s) (hmem : c ∈ fencedBodies (inBlock p s q))
    (hc : braced c = true) : ¬ Reads d c (.value (.obj v.members : Value F)) := by
  intro hread
  obtain ⟨a, g, b, hg, hsplit, hb, hno⟩ := mem_fencedBodies hmem
  obtain ⟨a, rfl, hrest⟩ := split_left hsplit fun hmem => (hp _ hmem).2.2 rfl
  have hjson : text "json\n" = [0x6a, 0x73, 0x6f, 0x6e, 0x0a] := by decide
  rw [hjson] at hrest
  rcases a with _ | ⟨x₁, _ | ⟨x₂, _ | ⟨x₃, a⟩⟩⟩
  · -- the opening fence of the block itself
    have hrest : [0x6a, 0x73, 0x6f, 0x6e, 0x0a] ++ (s ++ (newline :: (fence ++ q))) =
        g ++ (c ++ b) := List.append_cancel_left hrest
    obtain ⟨s', rfl⟩ := List.head?_eq_some_iff.mp (braced_iff.mp (braced_dict hs)).1
    obtain ⟨c', rfl⟩ := List.head?_eq_some_iff.mp (braced_iff.mp hc).1
    obtain ⟨x, rfl, hx⟩ := split_left hrest (by decide)
    cases x with
    | nil =>
      have heq := ((reads_dict hs).unique hread rfl hx).1
      exact hno (heq ▸ hfence)
    | cons e x =>
      obtain ⟨rfl, -⟩ := List.cons_eq_cons.mp hx
      exact hg.ne (c := openBrace) (by simp) (by decide) (by decide) rfl
  · exact absurd (congrArg (·[3]?) hrest) (by simp)
  · exact absurd (congrArg (·[3]?) hrest) (by simp)
  · -- a fence in the text of the object
    obtain ⟨-, h₁⟩ := List.cons_eq_cons.mp hrest
    obtain ⟨-, h₂⟩ := List.cons_eq_cons.mp h₁
    obtain ⟨-, h₃⟩ := List.cons_eq_cons.mp h₂
    have h₄ : [0x6a, 0x73, 0x6f, 0x6e, 0x0a] ++ (s ++ (newline :: (fence ++ q))) =
        a ++ backtick :: ([backtick, backtick] ++ (g ++ (c ++ b))) := h₃
    obtain ⟨a, rfl, h₅⟩ := split_left h₄ (by decide)
    have h₆ : s ++ (newline :: (fence ++ q)) = a ++ (fence ++ (g ++ (c ++ b))) := h₅
    have hcount : q.count backtick = 0 := List.count_eq_zero.mpr fun hmem => (hq _ hmem).2.2 rfl
    obtain ⟨e, he⟩ := block_in_text h₆ hb (braced_iff.mp hc).2 (by simp)
      (by simp [hcount]) (by simpa using fun hmem => (hq _ hmem).2.1 rfl)
    exact not_reads_of_block hs hg he hread

theorem roundTrips_inBlock_iff {p q : Str} (hs : dumps (.obj v.members) = some s) (hp : Prose p)
    (hq : Prose q) : RoundTrips stack v (inBlock p s q) ↔
      (¬ fence <:+: s ∨ ∀ c ∈ fencedBodies (inBlock p s q), braced c = false) ∧
        (Value.obj v.members).depth ≤ stack.parsing := by
  have hwhole : braced (strip (inBlock p s q)) = false := not_braced_inBlock hp
  by_cases hfence : fence <:+: s
  · rw [or_iff_right (not_not_intro hfence)]
    by_cases hnone : ∀ c ∈ fencedBodies (inBlock p s q), braced c = false
    · rw [and_iff_right hnone]
      have hopening : openBrace ∉ fence ++ text "json\n" := by decide
      refine roundTrips_decoded hs (r := newline :: (fence ++ q)) ?_
      rw [extractJson_prose hwhole hnone, inBlock, firstDecoded_skip fun hmem => (hp _ hmem).1 rfl,
        ← List.append_assoc, firstDecoded_skip hopening]
    · refine iff_of_false ?_ fun h => hnone h.1
      obtain ⟨c, hfind⟩ := exists_block hnone
      exact not_roundTrips_of_block hwhole hfind (not_reads_inBlock hs hp hq hfence
        (List.mem_of_find?_eq_some hfind) (List.find?_some hfind))
  · rw [and_iff_right (.inl hfence)]
    exact roundTrips_extracted hs
      (extractJson_block hwhole (find?_block hp (braced_dict hs) hfence))

/-! ### Both wrappings -/

/-- No block of the wrappings that is in braces is taken for the object, and the object is
shallow enough to be parsed. -/
structure Separable (stack : Stack) (v : Dict F) (p s q : Str) : Prop where
  ofBare : (Spaces p ∧ Spaces q) ∨ ∀ c ∈ fencedBodies (bare p s q), braced c = false
  ofBlock : ¬ fence <:+: s ∨ ∀ c ∈ fencedBodies (inBlock p s q), braced c = false
  shallow : (Value.obj v.members).depth ≤ stack.parsing

/-- The object comes back from both wrappings exactly when no other block is in braces and the
nesting is no deeper than the stack allows. -/
theorem roundTrips_iff_separable {p q : Str} (hs : dumps (.obj v.members) = some s)
    (hp : Prose p) (hq : Prose q) :
    (RoundTrips stack v (bare p s q) ∧ RoundTrips stack v (inBlock p s q)) ↔
      Separable stack v p s q := by
  rw [roundTrips_bare_iff hs hp hq, roundTrips_inBlock_iff hs hp hq]
  exact ⟨fun h => ⟨h.1.1, h.2.1, h.1.2⟩, fun h => ⟨⟨h.ofBare, h.shallow⟩, h.ofBlock, h.shallow⟩⟩

end Objects

namespace RoundTrip

def ofString (name s : Str) : Dict Constant where
  members := [(name, .str s)]
  distinct members h := by
    cases h with
    | self => simp
    | member hm h =>
      obtain rfl := List.mem_singleton.mp hm
      cases h

/-- A theme whose text is a line of braces. -/
def theme : Dict Constant := ofString (text "theme") (text "a \x7b\x7d b")

/-- A string that holds a fenced block. -/
def quoting : Dict Constant := ofString (text "a") (text "```\x7b\x7d```")

theorem roundTrips_theme :
    RoundTrips .typical theme
        (bare (text "see ") (text "\x7b\"theme\": \"a \x7b\x7d b\"\x7d") []) ∧
      RoundTrips .typical theme
        (inBlock (text "see ") (text "\x7b\"theme\": \"a \x7b\x7d b\"\x7d") []) := by
  have hs : dumps (.obj theme.members) = some (text "\x7b\"theme\": \"a \x7b\x7d b\"\x7d") := by
    decide
  have hp : Prose (text "see ") := by unfold Prose; decide
  refine (roundTrips_iff_separable hs hp (by simp [Prose])).mpr ⟨.inr ?_, .inl ?_, ?_⟩
  · decide
  · decide
  · decide

/-- The text of the second object between prose. -/
def quoted : Str := bare (text "x") (text "\x7b\"a\": \"```\x7b\x7d```\"\x7d") []

theorem parsedReply_quoted : parsedReply (F := Constant) .typical quoted = .ok [] := by
  have hchosen : (extractJson Constant Stack.typical.extraction quoted).toOption =
      some [openBrace, closeBrace] := by
    decide
  rw [parsedReply]
  cases h : extractJson Constant Stack.typical.extraction quoted with
  | error e => exact absurd (h ▸ hchosen) (by simp [Except.toOption])
  | ok c =>
    rw [h] at hchosen
    obtain rfl := Option.some.inj hchosen
    rfl

theorem quoting_lost :
    dumps (.obj quoting.members) = some (text "\x7b\"a\": \"```\x7b\x7d```\"\x7d") ∧
      Prose (text "x") ∧ parsedReply (F := Constant) .typical quoted = .ok [] ∧
      ¬ RoundTrips .typical quoting quoted := by
  refine ⟨by decide, by unfold Prose; decide, parsedReply_quoted, fun h => ?_⟩
  have hmembers := Except.ok.inj (parsedReply_quoted.symm.trans h)
  exact absurd hmembers (by simp [quoting, ofString])

end RoundTrip

end LiberNovus.Responses

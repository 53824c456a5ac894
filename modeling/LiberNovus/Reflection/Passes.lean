import LiberNovus.Reflection.Pieces

/-! The patterns of the sanitising on the pieces of a text.

Proved: a pattern matches in the text exactly when its words occur in the pieces one after another
with a single space between them, and a pass replaces these occurrences. -/

namespace LiberNovus.Reflection

open Session Text Phrases

/-- A letter as the patterns have it. -/
def Small (c : Char) : Prop := 0x430 ≤ c.toNat ∧ c.toNat ≤ 0x44f

instance (c : Char) : Decidable (Small c) := inferInstanceAs (Decidable (_ ∧ _))

theorem foldCase_small {c : Char} (h : Small c) : foldCase c = c := by
  have h1 : ¬ (0x410 ≤ c.toNat ∧ c.toNat ≤ 0x42f) := fun h' => by
    have := h.1
    omega
  have h2 : c.toNat ≤ 0x44f := h.2
  simp only [foldCase, if_neg h1]
  repeat rw [if_neg (by omega)]

theorem isLetter_of_fold {c : Char} (h : Small (foldCase c)) : isLetter c = true := by
  simp only [isLetter, Bool.or_eq_true, Bool.and_eq_true, decide_eq_true_eq, beq_iff_eq]
  by_contra hnot
  have hself : foldCase c = c := by
    simp only [foldCase]
    repeat rw [if_neg (by omega)]
  rw [hself, Small] at h
  omega

theorem small_of_capital : ∀ n < 0x20, Small (Char.ofNat (0x410 + n + 0x20)) := by decide

theorem foldCase_eq_space {c : Char} : foldCase c = ' ' ↔ c = ' ' := by
  constructor
  · intro h
    have hsmall : ¬ Small (foldCase c) := by
      rw [h]
      decide
    by_cases hc : 0x410 ≤ c.toNat ∧ c.toNat ≤ 0x42f
    · have hcapital := small_of_capital (c.toNat - 0x410) (by omega)
      rw [Nat.add_sub_cancel' hc.1] at hcapital
      exact absurd (by rwa [foldCase, if_pos hc]) hsmall
    · simp only [foldCase, if_neg hc] at h
      split_ifs at h
      all_goals first | exact h | exact absurd h (by decide)
  · rintro rfl
    decide

section Matching

variable [WordTable] {inside : Bool} {literal replacement text : List Char}

/-- A literal that starts with a letter does not match where no word does. -/
theorem matchLiteral_eq_false {a : Char} (ha : Small a) (htext : text.head?.any isWordChar = false) :
    matchLiteral inside (a :: literal) text = false := by
  cases text with
  | nil => rfl
  | cons c text =>
    have hne : foldCase c ≠ a := by
      rintro rfl
      rw [List.head?_cons, Option.any_some, isWordChar, isLetter_of_fold ha] at htext
      cases htext
    simp [matchLiteral, hne]

/-- A word of the pattern, and what follows it, against a word of the text. -/
theorem matchLiteral_word {u v : List Char} (hu : ∀ a ∈ u, Small a)
    (hv : ∀ c ∈ v, isWordChar c = true) (hliteral : literal = [] ∨ literal.head? = some ' ')
    (htext : text.head?.any isWordChar = false) :
    matchLiteral true (u ++ literal) (v ++ text) = true ↔
      v.map foldCase = u ∧ matchLiteral true literal text = true := by
  induction u generalizing v with
  | nil =>
    cases v with
    | nil => simp
    | cons c v =>
      -- the word of the text goes on
      have hc := hv c List.mem_cons_self
      have hfalse : matchLiteral true literal (c :: (v ++ text)) = false := by
        cases literal with
        | nil => simp [matchLiteral, boundary, hc]
        | cons a literal =>
          have ha : a = ' ' := by simpa using hliteral
          have hne : foldCase c ≠ ' ' := by
            rw [Ne, foldCase_eq_space]
            rintro rfl
            rw [gap_space ' ' List.mem_cons_self] at hc
            cases hc
          simp [matchLiteral, ha, hne]
      simp [hfalse]
  | cons a u ih =>
    obtain ⟨ha, hu⟩ := List.forall_mem_cons.mp hu
    cases v with
    | nil => simp [matchLiteral_eq_false ha htext]
    | cons c v =>
      obtain ⟨hc, hv⟩ := List.forall_mem_cons.mp hv
      rw [List.cons_append, List.cons_append, matchLiteral, hc, Bool.and_eq_true, ih hu hv,
        List.map_cons, List.cons.injEq, beq_iff_eq, and_assoc]

/-- Only the end of the literal looks behind. -/
theorem matchLiteral_inside {a : Char} :
    matchLiteral inside (a :: literal) text = matchLiteral true (a :: literal) text := by
  cases text <;> rfl

def Lettered (q : List (List Char)) : Prop := ∀ u ∈ q, u ≠ [] ∧ ∀ a ∈ u, Small a

omit [WordTable] in
theorem exists_join {u : List Char} {q : List (List Char)} (hq : Lettered (u :: q)) :
    ∃ a literal, join [' '] (u :: q) = a :: literal ∧ Small a := by
  obtain ⟨hne, hsmall⟩ := hq u List.mem_cons_self
  obtain ⟨a, u, rfl⟩ := List.exists_cons_of_ne_nil hne
  have ha := hsmall a List.mem_cons_self
  cases q with
  | nil => exact ⟨a, u, by simp [join], ha⟩
  | cons u' q => exact ⟨a, u ++ ' ' :: join [' '] (u' :: q), by simp [join_cons_cons], ha⟩

omit [WordTable] in
theorem starts_single {u : List Char} {x : Piece} {l : List Piece} :
    Starts key [u] Strict (x :: l) ↔ key x = u := by
  constructor
  · rintro ⟨m, b, hb, hm, -⟩
    obtain ⟨y, rfl, rfl⟩ := List.map_eq_singleton_iff.mp hm
    rw [List.singleton_append, List.cons.injEq] at hb
    rw [hb.1]
  · rintro rfl
    exact ⟨[x], l, rfl, rfl, by simp [Strict]⟩

omit [WordTable] in
theorem not_starts_singleton {u u' : List Char} {q : List (List Char)} {x : Piece} :
    ¬ Starts key (u :: u' :: q) Strict [x] := by
  rintro ⟨m, b, hb, hm, -⟩
  have hlen := congrArg List.length hm
  have hlen' := congrArg List.length hb
  simp only [List.length_map, List.length_cons, List.length_append, List.length_nil] at hlen hlen'
  omega

omit [WordTable] in
theorem starts_cons_cons {u u' : List Char} {q : List (List Char)} {x y : Piece} {l : List Piece} :
    Starts key (u :: u' :: q) Strict (x :: y :: l) ↔
      key x = u ∧ y.gap = [' '] ∧ Starts key (u' :: q) Strict (y :: l) := by
  constructor
  · rintro ⟨m, b, hb, hm, hstrict⟩
    obtain ⟨x', m, rfl, rfl, htail⟩ := List.map_eq_cons_iff.mp hm
    obtain ⟨y', m, rfl, rfl, rfl⟩ := List.map_eq_cons_iff.mp htail
    simp only [List.cons_append, List.cons.injEq] at hb
    obtain ⟨rfl, rfl, rfl⟩ := hb
    obtain ⟨hy, hm⟩ := List.forall_mem_cons.mp hstrict
    exact ⟨rfl, hy, y :: m, b, rfl, rfl, hm⟩
  · rintro ⟨rfl, hy, m, b, hb, hm, hstrict⟩
    obtain ⟨y', m, rfl, rfl, rfl⟩ := List.map_eq_cons_iff.mp hm
    rw [List.cons_append, List.cons.injEq] at hb
    obtain ⟨rfl, rfl⟩ := hb
    exact ⟨x :: y :: m, b, rfl, rfl, List.forall_mem_cons.mpr ⟨hy, hstrict⟩⟩

theorem head_rest {l : List Piece} {trail : List Char} (hl : Shaped true l) (htrail : Gap trail) :
    (render l ++ trail).head?.any isWordChar = false := by
  have hhead : ∀ {t : List Char}, Gap t → ∀ {s : List Char}, t ≠ [] ∨ s = [] →
      (t ++ s).head?.any isWordChar = false := by
    intro t ht s hts
    cases t with
    | nil => simp [hts.resolve_left (not_not.mpr rfl)]
    | cons c t => simpa using ht c List.mem_cons_self
  cases l with
  | nil => simpa using hhead htrail (Or.inr (Eq.refl []))
  | cons x l =>
    rw [render_cons, List.append_assoc]
    exact hhead hl.1.1 (Or.inl (hl.1.2.1 rfl))

/-- The space of a pattern against what stands between two words. -/
theorem matchLiteral_space {q : List (List Char)} (hq : Lettered q) (hne : q ≠ []) {gap : List Char}
    (hgap : Gap gap) (hgapne : gap ≠ []) :
    matchLiteral inside (' ' :: join [' '] q) (gap ++ text) = true ↔
      gap = [' '] ∧ matchLiteral false (join [' '] q) text = true := by
  obtain ⟨u, q, rfl⟩ := List.exists_cons_of_ne_nil hne
  obtain ⟨a, literal, hjoin, ha⟩ := exists_join hq
  obtain ⟨d, gap, rfl⟩ := List.exists_cons_of_ne_nil hgapne
  rw [List.cons_append, matchLiteral, hgap d List.mem_cons_self, Bool.and_eq_true, beq_iff_eq,
    foldCase_eq_space, List.cons.injEq]
  cases gap with
  | nil => simp
  | cons e gap =>
    have hhead : ((e :: gap) ++ text).head?.any isWordChar = false := hgap e (by simp)
    rw [hjoin, matchLiteral_eq_false ha hhead]
    simp

/-- The pattern matches where a word begins exactly when its words follow one another there. -/
theorem matchLiteral_iff {q : List (List Char)} {x : Piece} {l : List Piece} {trail : List Char}
    (hq : Lettered q) (hne : q ≠ []) (hx : IsWord x.word) (hl : Shaped true l) (htrail : Gap trail) :
    matchLiteral inside (join [' '] q) (x.word ++ (render l ++ trail)) = true ↔
      Starts key q Strict (x :: l) := by
  induction q generalizing inside x l with
  | nil => exact absurd rfl hne
  | cons u q ih =>
    have hrest := head_rest hl htrail
    have hu := (hq u List.mem_cons_self).2
    obtain ⟨a, literal, hjoin, -⟩ := exists_join hq
    rw [hjoin, matchLiteral_inside, ← hjoin]
    cases q with
    | nil =>
      rw [starts_single, join, List.intercalate_singleton, ← List.append_nil u,
        matchLiteral_word hu hx.wordChars (Or.inl rfl) hrest, List.append_nil]
      rw [matchLiteral, boundary, hrest]
      simp [key]
    | cons u' q =>
      have hq' : Lettered (u' :: q) := fun w hw => hq w (List.mem_cons_of_mem u hw)
      have hne' := List.cons_ne_nil u' q
      obtain ⟨a, literal, hjoin', -⟩ := exists_join hq'
      rw [join_cons_cons, matchLiteral_word hu hx.wordChars (Or.inr rfl) hrest]
      cases l with
      | nil =>
        have hfalse : ¬ matchLiteral true (' ' :: join [' '] (u' :: q)) trail = true := by
          by_cases hnil : trail = []
          · rw [hnil, matchLiteral]
            exact Bool.false_ne_true
          · rw [← List.append_nil trail, matchLiteral_space hq' hne' htrail hnil, hjoin']
            exact fun h => Bool.false_ne_true h.2
        simp [hfalse, not_starts_singleton]
      | cons y l =>
        obtain ⟨⟨hgap, hgapne, hy⟩, hl⟩ := hl
        rw [starts_cons_cons, ← @ih false y l hq' hne' hy hl, render_cons, List.append_assoc,
          matchLiteral_space hq' hne' hgap (hgapne rfl), key, List.append_assoc]

theorem matchPattern_iff {q : List (List Char)} {x : Piece} {l : List Piece} {trail : List Char}
    (hq : Lettered q) (hne : q ≠ []) (hx : IsWord x.word) (hl : Shaped true l) (htrail : Gap trail) :
    matchPattern false (join [' '] q) (x.word ++ (render l ++ trail)) = true ↔
      Starts key q Strict (x :: l) := by
  have hboundary : boundary false (x.word ++ (render l ++ trail)) = true := by
    obtain ⟨c, w, hw⟩ := List.exists_cons_of_ne_nil hx.nonempty
    simp [boundary, hw, hx.wordChars c (hw ▸ List.mem_cons_self)]
  rw [matchPattern, hboundary, Bool.true_and, matchLiteral_iff hq hne hx hl htrail]

/-- No match starts between the words. -/
theorem matchPattern_gap {a c : Char} (ha : Small a) (hc : isWordChar c = false) :
    matchPattern inside (a :: literal) (c :: text) = false := by
  have hhead : (c :: text).head?.any isWordChar = false := hc
  rw [matchPattern, matchLiteral_eq_false ha hhead, Bool.and_false]

/-- No match starts inside a word. -/
theorem matchPattern_inside {c : Char} (hc : isWordChar c = true) :
    matchPattern true literal (c :: text) = false := by simp [matchPattern, boundary, hc]

/-! ### Searching -/

theorem search_trail {a : Char} (ha : Small a) {trail : List Char} (htrail : Gap trail) :
    search (a :: literal) inside trail = false := by
  induction trail generalizing inside with
  | nil => rw [search, matchPattern, matchLiteral, Bool.and_false]
  | cons c trail ih =>
    obtain ⟨hc, htrail⟩ := List.forall_mem_cons.mp htrail
    rw [search, matchPattern_gap ha hc, Bool.false_or, ih htrail]

theorem search_gap {a : Char} (ha : Small a) {gap : List Char} (hgap : Gap gap)
    (hinside : inside = true → gap ≠ []) :
    search (a :: literal) inside (gap ++ text) = search (a :: literal) false text := by
  induction gap generalizing inside with
  | nil =>
    have hfalse : inside = false := by simpa using hinside
    rw [hfalse, List.nil_append]
  | cons c gap ih =>
    obtain ⟨hc, hgap⟩ := List.forall_mem_cons.mp hgap
    rw [List.cons_append, search, matchPattern_gap ha hc, Bool.false_or, hc, ih hgap (by simp)]

theorem search_word {word : List Char} (hword : ∀ c ∈ word, isWordChar c = true) :
    search literal true (word ++ text) = search literal true text := by
  induction word with
  | nil => rfl
  | cons c word ih =>
    obtain ⟨hc, hword⟩ := List.forall_mem_cons.mp hword
    rw [List.cons_append, search, matchPattern_inside hc, Bool.false_or, hc, ih hword]

/-- A pattern is found in a text exactly when its words occur in the pieces. -/
theorem search_iff {q : List (List Char)} {l : List Piece} {trail : List Char} (hq : Lettered q)
    (hne : q ≠ []) (hl : Shaped inside l) (htrail : Gap trail) :
    search (join [' '] q) inside (render l ++ trail) = true ↔ Occurs key q Strict l := by
  obtain ⟨u, q, rfl⟩ := List.exists_cons_of_ne_nil hne
  obtain ⟨a, literal, hjoin, ha⟩ := exists_join hq
  induction l generalizing inside with
  | nil =>
    rw [render_nil, List.nil_append, hjoin, search_trail ha htrail]
    simpa using occurs_nil hne
  | cons x l ih =>
    obtain ⟨⟨hgap, hgapne, hx⟩, hl⟩ := hl
    obtain ⟨c, w, hw⟩ := List.exists_cons_of_ne_nil hx.nonempty
    have hcw := List.forall_mem_cons.mp (hw ▸ hx.wordChars)
    rw [occurs_cons, ← ih hl, ← matchPattern_iff hq hne hx hl htrail, hjoin, render_cons,
      List.append_assoc, search_gap ha hgap hgapne, List.append_assoc, hw, List.cons_append, search,
      hcw.1, search_word hcw.2, Bool.or_eq_true]

/-! ### Replacing -/

theorem sub_trail {a : Char} (ha : Small a) {trail : List Char} (htrail : Gap trail) :
    sub (a :: literal) replacement 0 inside trail = trail := by
  induction trail generalizing inside with
  | nil => rw [sub]
  | cons c trail ih =>
    obtain ⟨hc, htrail⟩ := List.forall_mem_cons.mp htrail
    rw [sub, matchPattern_gap ha hc, ih htrail]
    rfl

theorem sub_gap {a : Char} (ha : Small a) {gap : List Char} (hgap : Gap gap)
    (hinside : inside = true → gap ≠ []) :
    sub (a :: literal) replacement 0 inside (gap ++ text) =
      gap ++ sub (a :: literal) replacement 0 false text := by
  induction gap generalizing inside with
  | nil =>
    have hfalse : inside = false := by simpa using hinside
    rw [hfalse, List.nil_append, List.nil_append]
  | cons c gap ih =>
    obtain ⟨hc, hgap⟩ := List.forall_mem_cons.mp hgap
    rw [List.cons_append, sub, matchPattern_gap ha hc, hc, ih hgap (by simp)]
    rfl

theorem sub_word {word : List Char} (hword : ∀ c ∈ word, isWordChar c = true) :
    sub literal replacement 0 true (word ++ text) = word ++ sub literal replacement 0 true text := by
  induction word with
  | nil => rfl
  | cons c word ih =>
    obtain ⟨hc, hword⟩ := List.forall_mem_cons.mp hword
    rw [List.cons_append, sub, matchPattern_inside hc, hc, ih hword]
    rfl

/-- What is left of a match is passed. -/
theorem sub_skip {c : Char} {rest : List Char}
    (hlast : ∀ d ∈ (c :: rest).getLast?, isWordChar d = true) :
    sub literal replacement rest.length (isWordChar c) (rest ++ text) =
      sub literal replacement 0 true text := by
  induction rest generalizing c with
  | nil => rw [hlast c rfl, List.length_nil, List.nil_append]
  | cons d rest ih =>
    rw [List.length_cons, List.cons_append, sub]
    exact ih (by rwa [List.getLast?_cons_cons] at hlast)

/-- Where the pattern matches, the replacement is put in the place of the match. -/
theorem sub_match {word : List Char} (hne : word ≠ []) (hlen : word.length = literal.length)
    (hlast : ∀ c ∈ word.getLast?, isWordChar c = true)
    (hmatch : matchPattern false literal (word ++ text) = true) :
    sub literal replacement 0 false (word ++ text) =
      replacement ++ sub literal replacement 0 true text := by
  obtain ⟨c, rest, rfl⟩ := List.exists_cons_of_ne_nil hne
  rw [List.cons_append] at hmatch ⊢
  rw [sub, if_pos hmatch, ← hlen, List.length_cons, Nat.add_sub_cancel, sub_skip hlast]

/-- Where it does not, the word is passed. -/
theorem sub_pass {word : List Char} (hword : IsWord word)
    (hmatch : ¬ matchPattern false literal (word ++ text) = true) :
    sub literal replacement 0 false (word ++ text) = word ++ sub literal replacement 0 true text := by
  obtain ⟨c, rest, rfl⟩ := List.exists_cons_of_ne_nil hword.nonempty
  obtain ⟨hc, hrest⟩ := List.forall_mem_cons.mp hword.wordChars
  rw [List.cons_append] at hmatch ⊢
  rw [sub, if_neg hmatch, hc, sub_word hrest, List.cons_append]

/-- A text without a match is left as it is. -/
theorem sub_eq_self (h : search literal inside text = false) :
    sub literal replacement 0 inside text = text := by
  induction text generalizing inside with
  | nil => rw [sub]
  | cons c text ih =>
    rw [search, Bool.or_eq_false_iff] at h
    rw [sub, h.1, ih h.2]
    rfl

/-- Words with single spaces between them. -/
def spaced (gap : List Char) : List (List Char) → List Piece
  | [] => []
  | word :: words => ⟨gap, word⟩ :: spaced [' '] words

omit [WordTable] in
theorem render_spaced {gap u : List Char} {q : List (List Char)} :
    render (spaced gap (u :: q)) = gap ++ join [' '] (u :: q) := by
  induction q generalizing gap u with
  | nil => simp [spaced, join]
  | cons u' q ih =>
    rw [spaced, render_cons, ih, join_cons_cons, List.singleton_append]

omit [WordTable] in
theorem key_spaced {gap : List Char} {q : List (List Char)} (hq : Lettered q) :
    (spaced gap q).map key = q := by
  induction q generalizing gap with
  | nil => rfl
  | cons u q ih =>
    obtain ⟨hu, hq⟩ := List.forall_mem_cons.mp hq
    have hkey : key ⟨gap, u⟩ = u := (List.map_congr_left fun a ha => foldCase_small (hu.2 a ha)).trans
      (List.map_id u)
    rw [spaced, List.map_cons, hkey, ih hq]

theorem isWord_of_small {u : List Char} (hu : u ≠ [] ∧ ∀ a ∈ u, Small a) : IsWord u := by
  refine ⟨hu.1, fun a ha => ?_⟩
  have hsmall := hu.2 a ha
  rw [← foldCase_small hsmall] at hsmall
  rw [isWordChar, isLetter_of_fold hsmall]
  rfl

theorem shaped_spaced {gap : List Char} {q : List (List Char)} (hq : Lettered q) (hgap : Gap gap)
    (hinside : inside = true → gap ≠ []) : Shaped inside (spaced gap q) := by
  induction q generalizing gap inside with
  | nil => trivial
  | cons u q ih =>
    obtain ⟨hu, hq⟩ := List.forall_mem_cons.mp hq
    exact ⟨⟨hgap, hinside, isWord_of_small hu⟩, ih hq gap_space (by simp)⟩

omit [WordTable] in
/-- A match is as long as the literal. -/
theorem length_matched {x : Piece} {m : List Piece} (h : Strict (x :: m)) :
    (x.word ++ render m).length = (join [' '] ((x :: m).map key)).length := by
  induction m generalizing x with
  | nil => simp [join, key]
  | cons y m ih =>
    obtain ⟨hy, hm⟩ := List.forall_mem_cons.mp h
    have hrest := @ih y hm
    have hkey : (key x).length = x.word.length := List.length_map _
    rw [List.length_append] at hrest
    simp only [List.map_cons, join_cons_cons, render_cons, hy, List.length_append, List.length_cons,
      List.length_nil, hkey] at hrest ⊢
    omega

theorem getLast_matched {x : Piece} {m : List Piece} (hx : IsWord x.word) (hm : Shaped true m) :
    ∀ c ∈ (x.word ++ render m).getLast?, isWordChar c = true := by
  induction m generalizing x with
  | nil =>
    rw [render_nil, List.append_nil]
    exact fun c hc => hx.wordChars c (List.mem_of_getLast? hc)
  | cons y m ih =>
    obtain ⟨⟨-, -, hy⟩, hm⟩ := hm
    have hne : y.word ++ render m ≠ [] := List.append_ne_nil_of_left_ne_nil hy.nonempty _
    rw [render_cons, ← List.append_assoc, List.getLast?_append_of_ne_nil _ hne]
    exact ih hy hm

/-- The pass of a pattern over a text replaces the occurrences of its words in the pieces. -/
theorem exists_rewrites {p r : List (List Char)} {l : List Piece} {trail : List Char}
    (hp : Lettered p) (hpne : p ≠ []) (hr : Lettered r) (hrne : r ≠ []) (hl : Shaped inside l)
    (htrail : Gap trail) :
    ∃ l', Rewrites key p r Strict l l' ∧ Shaped inside l' ∧
      sub (join [' '] p) (join [' '] r) 0 inside (render l ++ trail) = render l' ++ trail := by
  obtain ⟨u, q, rfl⟩ := List.exists_cons_of_ne_nil hpne
  obtain ⟨a, literal, hjoin, ha⟩ := exists_join hp
  induction hn : l.length using Nat.strong_induction_on generalizing inside l with
  | _ n ih =>
    cases l with
    | nil =>
      refine ⟨[], .nil, trivial, ?_⟩
      rw [hjoin, render_nil, List.nil_append, sub_trail ha htrail]
    | cons x l =>
      obtain ⟨⟨hgap, hgapne, hx⟩, hl⟩ := hl
      have hmatch := matchPattern_iff hp hpne hx hl htrail
      have hgapped : sub (join [' '] (u :: q)) (join [' '] r) 0 inside (render (x :: l) ++ trail) =
          x.gap ++ sub (join [' '] (u :: q)) (join [' '] r) 0 false
            (x.word ++ (render l ++ trail)) := by
        rw [render_cons, List.append_assoc, List.append_assoc, hjoin, sub_gap ha hgap hgapne]
      by_cases hstarts : Starts key (u :: q) Strict (x :: l)
      · have hmatched := hmatch.mpr hstarts
        obtain ⟨m, b, hb, hm, hstrict⟩ := hstarts
        obtain ⟨y, m, rfl, -, -⟩ := List.map_eq_cons_iff.mp hm
        rw [List.cons_append, List.cons.injEq] at hb
        obtain ⟨rfl, rfl⟩ := hb
        obtain ⟨hlm, hlb⟩ := shaped_append.mp hl
        have hlt : b.length < n := by
          rw [← hn, List.length_cons, List.length_append]
          omega
        obtain ⟨b', hrew, hshaped, hsub⟩ := ih b.length hlt hlb rfl
        obtain ⟨v, r, rfl⟩ := List.exists_cons_of_ne_nil hrne
        refine ⟨spaced x.gap (v :: r) ++ b', .replace hm hstrict (key_spaced hr) hrew, ?_, ?_⟩
        · have hspaced := shaped_spaced hr hgap hgapne
          exact ⟨hspaced.1, shaped_append.mpr ⟨hspaced.2, hshaped⟩⟩
        · have hne := List.append_ne_nil_of_left_ne_nil hx.nonempty (render m)
          have hlen := hm ▸ length_matched hstrict
          rw [render_append, List.append_assoc, ← List.append_assoc] at hmatched
          rw [hgapped, render_append, List.append_assoc, ← List.append_assoc x.word,
            sub_match hne hlen (getLast_matched hx hlm) hmatched, hsub, render_append, render_spaced]
          simp only [List.append_assoc]
      · obtain ⟨l', hrew, hshaped, hsub⟩ := ih l.length (by simp [← hn]) hl rfl
        refine ⟨x :: l', .keep hstarts hrew, ⟨⟨hgap, hgapne, hx⟩, hshaped⟩, ?_⟩
        rw [hgapped, sub_pass hx (mt hmatch.mp hstarts), hsub, render_cons, List.append_assoc,
          List.append_assoc]

end Matching

end LiberNovus.Reflection

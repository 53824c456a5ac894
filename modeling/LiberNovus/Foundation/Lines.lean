import LiberNovus.Foundation.Search
import LiberNovus.Foundation.Text
import Mathlib.Data.List.Infix

/-! Lines and paragraphs of a text: `str.splitlines`, which knows many line boundaries, and
`str.split` at empty lines. -/

namespace LiberNovus.Text

open Search

/-- The line boundaries of `str.splitlines`. -/
def isBreak (c : Char) : Bool :=
  let n := c.toNat
  (0x0a ≤ n && n ≤ 0x0d) || (0x1c ≤ n && n ≤ 0x1e) || n == 0x85 || n == 0x2028 || n == 0x2029

/-- A character at the start of the first piece. -/
def consLine (c : Char) : List (List Char) → List (List Char)
  | [] => [[c]]
  | l :: ls => (c :: l) :: ls

def splitlines : List Char → List (List Char)
  | [] => []
  | [c] => if isBreak c then [[]] else [[c]]
  | c :: d :: t =>
    if isBreak c then
      -- a carriage return and a line feed are one boundary
      if c = '\r' ∧ d = '\n' then [] :: splitlines t else [] :: splitlines (d :: t)
    else consLine c (splitlines (d :: t))

/-- `text.split("\n\n")`. -/
def paragraphs : List Char → List (List Char)
  | [] => [[]]
  | [c] => [[c]]
  | c :: d :: t =>
    if c = '\n' ∧ d = '\n' then [] :: paragraphs t else consLine c (paragraphs (d :: t))

/-- No line boundary. -/
def OneLine (t : List Char) : Prop := ∀ c ∈ t, isBreak c = false

variable {x y t l : List Char} {b : Char} {ls : List (List Char)}

theorem OneLine.append (hx : OneLine x) (hy : OneLine y) : OneLine (x ++ y) := by
  intro c hc
  rcases List.mem_append.mp hc with hc | hc
  · exact hx c hc
  · exact hy c hc

/-! ### Lines -/

/-- What is left behind a boundary. -/
def afterBreak (b : Char) (t : List Char) : List Char :=
  if b = '\r' ∧ t.head? = some '\n' then t.tail else t

theorem splitlines_break (hb : isBreak b = true) (t : List Char) :
    splitlines (b :: t) = [] :: splitlines (afterBreak b t) := by
  cases t with
  | nil => simp [splitlines, hb, afterBreak]
  | cons d t =>
    rw [splitlines, if_pos hb, afterBreak]
    by_cases h : b = '\r' ∧ d = '\n'
    · rw [if_pos h, if_pos ⟨h.1, by rw [h.2]; rfl⟩]
      rfl
    · rw [if_neg h, if_neg fun h' => h ⟨h'.1, Option.some.inj h'.2⟩]

theorem splitlines_cons {c : Char} (hc : isBreak c = false) (t : List Char) :
    splitlines (c :: t) = consLine c (splitlines t) := by
  cases t with
  | nil => simp [splitlines, hc, consLine]
  | cons d t => rw [splitlines, if_neg (by simp [hc])]

theorem splitlines_append (hx : OneLine x) (hb : isBreak b = true) (t : List Char) :
    splitlines (x ++ b :: t) = x :: splitlines (afterBreak b t) := by
  induction x with
  | nil => exact splitlines_break hb t
  | cons c x ih =>
    rw [List.cons_append, splitlines_cons (hx c List.mem_cons_self),
      ih fun d hd => hx d (List.mem_cons_of_mem _ hd), consLine]

theorem splitlines_oneLine (hx : OneLine x) (hne : x ≠ []) : splitlines x = [x] := by
  induction x with
  | nil => exact absurd rfl hne
  | cons c x ih =>
    rw [splitlines_cons (hx c List.mem_cons_self)]
    cases x with
    | nil => rfl
    | cons d x =>
      rw [ih (fun e he => hx e (List.mem_cons_of_mem _ he)) (List.cons_ne_nil _ _), consLine]

/-- A line has no boundary in it. -/
theorem oneLine_of_mem_splitlines {l : List Char} (h : l ∈ splitlines t) : OneLine l := by
  induction t using splitlines.induct generalizing l with
  | case1 => cases h
  | case2 c hc =>
    rw [splitlines, if_pos hc] at h
    obtain rfl := List.mem_singleton.mp h
    simp [OneLine]
  | case3 c hc =>
    rw [splitlines, if_neg hc] at h
    obtain rfl := List.mem_singleton.mp h
    simpa [OneLine] using hc
  | case4 c d t hc hcd ih =>
    rw [splitlines, if_pos hc, if_pos hcd] at h
    rcases List.mem_cons.mp h with rfl | h
    · simp [OneLine]
    · exact ih h
  | case5 c d t hc hcd ih =>
    rw [splitlines, if_pos hc, if_neg hcd] at h
    rcases List.mem_cons.mp h with rfl | h
    · simp [OneLine]
    · exact ih h
  | case6 c d t hc ih =>
    rw [splitlines, if_neg hc] at h
    have hc' : OneLine [c] := by simpa [OneLine] using hc
    cases hl : splitlines (d :: t) with
    | nil =>
      rw [hl, consLine] at h
      obtain rfl := List.mem_singleton.mp h
      exact hc'
    | cons l' ls =>
      rw [hl, consLine] at h
      rw [hl] at ih
      rcases List.mem_cons.mp h with rfl | h
      · exact hc'.append (ih List.mem_cons_self)
      · exact ih (List.mem_cons_of_mem _ h)

/-- Text with a boundary has a first one. -/
theorem exists_break (h : ¬ OneLine t) :
    ∃ x c r, t = x ++ c :: r ∧ OneLine x ∧ isBreak c = true := by
  induction t with
  | nil => exact absurd (by simp [OneLine]) h
  | cons c t ih =>
    by_cases hc : isBreak c = true
    · exact ⟨[], c, t, rfl, by simp [OneLine], hc⟩
    · rw [Bool.not_eq_true] at hc
      have ht : ¬ OneLine t := by
        intro ht
        apply h
        intro d hd
        rcases List.mem_cons.mp hd with rfl | hd
        · exact hc
        · exact ht d hd
      obtain ⟨x, d, r, rfl, hx, hd⟩ := ih ht
      refine ⟨c :: x, d, r, rfl, ?_, hd⟩
      intro e he
      rcases List.mem_cons.mp he with rfl | he
      · exact hc
      · exact hx e he

/-- The first line starts the text. -/
theorem prefix_of_splitlines (h : splitlines t = l :: ls) : l <+: t := by
  by_cases ht : OneLine t
  · cases t with
    | nil => cases h
    | cons c t =>
      rw [splitlines_oneLine ht (List.cons_ne_nil _ _)] at h
      cases h
      exact List.prefix_rfl
  · obtain ⟨x, c, r, rfl, hx, hc⟩ := exists_break ht
    rw [splitlines_append hx hc] at h
    cases h
    exact List.prefix_append _ _

/-- What starts the text starts the first line. -/
theorem splitlines_of_prefix (hx : OneLine x) (hne : x ≠ []) (h : x <+: t) :
    ∃ l ls, splitlines t = l :: ls ∧ x <+: l := by
  obtain ⟨r, rfl⟩ := h
  by_cases hr : OneLine r
  · exact ⟨x ++ r, [], splitlines_oneLine (hx.append hr) (by simp [hne]), List.prefix_append _ _⟩
  · obtain ⟨y, c, r, rfl, hy, hc⟩ := exists_break hr
    refine ⟨x ++ y, splitlines (afterBreak c r), ?_, List.prefix_append _ _⟩
    rw [← List.append_assoc, splitlines_append (hx.append hy) hc]

/-- A start of a text has at most one line, or it reaches behind the first line. -/
theorem splitlines_prefix {l₁ l₂ : List Char} (hx : OneLine x) (hb : isBreak b = true)
    (ht : t <+: x ++ b :: y) (h : splitlines t = l₁ :: l₂ :: ls) :
    ∃ r, t = x ++ b :: r ∧ r <+: y ∧ l₁ = x ∧ splitlines (afterBreak b r) = l₂ :: ls := by
  have hshort : ¬ t <+: x := by
    intro hpre
    have hone : OneLine t := fun c hc => hx c (hpre.subset hc)
    cases t with
    | nil => cases h
    | cons c t =>
      rw [splitlines_oneLine hone (List.cons_ne_nil _ _)] at h
      cases h
  obtain ⟨r, rfl⟩ := (List.prefix_or_prefix_of_prefix ht (List.prefix_append x _)).resolve_left hshort
  rw [List.prefix_append_right_inj] at ht
  cases r with
  | nil => exact absurd (by simp) hshort
  | cons c r =>
    obtain ⟨rfl, hr⟩ := List.cons_prefix_cons.mp ht
    rw [splitlines_append hx hb] at h
    obtain ⟨h₁, h₂⟩ := List.cons_eq_cons.mp h
    exact ⟨r, rfl, hr, h₁.symm, h₂⟩

/-! ### Paragraphs -/

theorem paragraphs_cons {c : Char} (h : ¬ ['\n', '\n'] <+: c :: t) :
    paragraphs (c :: t) = consLine c (paragraphs t) := by
  cases t with
  | nil => rfl
  | cons d t =>
    rw [paragraphs, if_neg]
    rintro ⟨rfl, rfl⟩
    exact h ⟨t, rfl⟩

theorem paragraphs_append (hx : ¬ ['\n', '\n'] <:+: x) (hlast : x.getLast? ≠ some '\n')
    (t : List Char) : paragraphs (x ++ '\n' :: '\n' :: t) = x :: paragraphs t := by
  induction x with
  | nil => rw [List.nil_append, paragraphs, if_pos ⟨rfl, rfl⟩]
  | cons c x ih =>
    rw [List.infix_cons_iff, not_or] at hx
    have hlast' : x.getLast? ≠ some '\n' := by
      intro h
      apply hlast
      cases x with
      | nil => cases h
      | cons d x => simpa using h
    have hp : ¬ ['\n', '\n'] <+: c :: (x ++ '\n' :: '\n' :: t) := by
      rintro ⟨r, hr⟩
      obtain ⟨h₁, hr₁⟩ := List.cons_eq_cons.mp hr
      cases x with
      | nil => exact hlast (by rw [← h₁]; rfl)
      | cons d x =>
        obtain ⟨h₂, -⟩ := List.cons_eq_cons.mp hr₁
        exact hx.1 ⟨x, by rw [← h₁, ← h₂]; rfl⟩
    rw [List.cons_append, paragraphs_cons hp, ih hx.2 hlast', consLine]

theorem paragraphs_single (hx : ¬ ['\n', '\n'] <:+: x) : paragraphs x = [x] := by
  induction x with
  | nil => rfl
  | cons c x ih =>
    rw [List.infix_cons_iff, not_or] at hx
    rw [paragraphs_cons hx.1, ih hx.2, consLine]

/-- The first paragraph starts the text. -/
theorem paragraphs_prefix (t : List Char) : ∃ l ls, paragraphs t = l :: ls ∧ l <+: t := by
  induction t with
  | nil => exact ⟨[], [], rfl, List.prefix_rfl⟩
  | cons c t ih =>
    by_cases hp : ['\n', '\n'] <+: c :: t
    · obtain ⟨r, hr⟩ := hp
      refine ⟨[], paragraphs r, ?_, List.nil_prefix⟩
      rw [← hr]
      rfl
    · obtain ⟨l, ls, hl, hpre⟩ := ih
      refine ⟨c :: l, ls, ?_, List.cons_prefix_cons.mpr ⟨rfl, hpre⟩⟩
      rw [paragraphs_cons hp, hl, consLine]

/-! ### Text from lines -/

/-- `"\n".join(lines)`. -/
abbrev unlines (ls : List (List Char)) : List Char := join ['\n'] ls

@[simp] theorem unlines_singleton (l : List Char) : unlines [l] = l := List.intercalate_singleton

@[simp] theorem unlines_cons_cons (l l' : List Char) (ls : List (List Char)) :
    unlines (l :: l' :: ls) = l ++ '\n' :: unlines (l' :: ls) := by
  rw [unlines, join, List.intercalate_cons_cons, List.append_assoc]
  rfl

theorem unlines_cons {ls : List (List Char)} (h : ls ≠ []) (l : List Char) :
    unlines (l :: ls) = l ++ '\n' :: unlines ls := by
  obtain ⟨l', ls, rfl⟩ := List.exists_cons_of_ne_nil h
  exact unlines_cons_cons l l' ls

theorem unlines_append {ls ls' : List (List Char)} (h : ls ≠ []) (h' : ls' ≠ []) :
    unlines (ls ++ ls') = unlines ls ++ '\n' :: unlines ls' := by
  induction ls with
  | nil => exact absurd rfl h
  | cons l ls ih =>
    rw [List.cons_append, unlines_cons (by simp [h'])]
    cases ls with
    | nil => rw [List.nil_append, unlines_singleton]
    | cons l₂ ls =>
      rw [ih (List.cons_ne_nil _ _), unlines_cons (List.cons_ne_nil _ _), List.append_assoc,
        List.cons_append]

theorem head?_unlines {l : List Char} (hl : l ≠ []) (ls : List (List Char)) :
    (unlines (l :: ls)).head? = l.head? := by
  cases ls with
  | nil => rw [unlines_singleton]
  | cons l' ls => rw [unlines_cons_cons, List.head?_append_of_ne_nil _ hl]

theorem getLast?_unlines {ls : List (List Char)} {l : List Char} (hls : ls.getLast? = some l)
    (hl : l ≠ []) : (unlines ls).getLast? = l.getLast? := by
  obtain ⟨ls, rfl⟩ := List.getLast?_eq_some_iff.mp hls
  cases ls with
  | nil => rw [List.nil_append, unlines_singleton]
  | cons l' ls =>
    rw [unlines_append (List.cons_ne_nil _ _) (List.cons_ne_nil _ _), unlines_singleton,
      List.getLast?_append_of_ne_nil _ (List.cons_ne_nil _ _), List.getLast?_cons]
    cases h : l.getLast? with
    | none => exact absurd (List.getLast?_eq_none_iff.mp h) hl
    | some c => rfl

/-- More text behind the last line. -/
theorem unlines_cons_append (ls : List (List Char)) :
    ∃ r, ∀ l, unlines (l :: ls) = l ++ r := by
  cases ls with
  | nil => exact ⟨[], fun l => by simp⟩
  | cons l' ls => exact ⟨'\n' :: unlines (l' :: ls), fun l => unlines_cons_cons l l' ls⟩

/-- Lines are put behind the ones that end in an empty line. -/
theorem unlines_split (ls : List (List Char)) {ls' : List (List Char)} (h : ls' ≠ []) :
    unlines (ls ++ ls') = unlines (ls ++ [[]]) ++ unlines ls' := by
  cases ls with
  | nil => simp
  | cons l ls =>
    rw [unlines_append (List.cons_ne_nil _ _) h,
      unlines_append (List.cons_ne_nil _ _) (List.cons_ne_nil _ _), List.append_assoc]
    simp

theorem unlines_last (ls : List (List Char)) (l w : List Char) :
    unlines (ls ++ [l ++ w]) = unlines (ls ++ [l]) ++ w := by
  cases ls with
  | nil => rw [List.nil_append, List.nil_append, unlines_singleton, unlines_singleton]
  | cons l' ls =>
    rw [unlines_append (List.cons_ne_nil _ _) (List.cons_ne_nil _ _),
      unlines_append (List.cons_ne_nil _ _) (List.cons_ne_nil _ _), unlines_singleton,
      unlines_singleton, List.append_assoc, List.cons_append]

theorem infix_of_mem_unlines {l : List Char} {ls : List (List Char)} (h : l ∈ ls) :
    l <:+: unlines ls := by
  induction ls with
  | nil => cases h
  | cons l' ls ih =>
    obtain ⟨r, hr⟩ := unlines_cons_append ls
    rcases List.mem_cons.mp h with rfl | h
    · rw [hr]
      exact (List.prefix_append _ _).isInfix
    · cases ls with
      | nil => cases h
      | cons l₂ ls =>
        rw [unlines_cons_cons]
        exact ((ih h).trans (List.suffix_cons _ _).isInfix).trans (List.suffix_append _ _).isInfix

theorem splitlines_unlines {ls : List (List Char)} (h : ∀ l ∈ ls, OneLine l)
    (hlast : ∀ l ∈ ls.getLast?, l ≠ []) : splitlines (unlines ls) = ls := by
  induction ls with
  | nil => rfl
  | cons l ls ih =>
    cases ls with
    | nil => rw [unlines_singleton, splitlines_oneLine (h l List.mem_cons_self) (hlast l rfl)]
    | cons l' ls =>
      rw [unlines_cons_cons, splitlines_append (h l List.mem_cons_self) rfl, afterBreak,
        if_neg (by simp), ih (fun l hl => h l (List.mem_cons_of_mem _ hl)) (by simpa using hlast)]

variable {h : List Char} {pre post : List (List Char)}

/-- A pattern without a line feed is found in the first line that has it. -/
theorem cut_unlines (hne : h ≠ []) (hn : '\n' ∉ h) (hpre : ∀ l ∈ pre, ¬ h <:+: l)
    (hcut : cut h t = some (x, y)) :
    cut h (unlines (pre ++ t :: post)) = some (unlines (pre ++ [x]), unlines (y :: post)) := by
  induction pre with
  | nil =>
    obtain ⟨r, hr⟩ := unlines_cons_append post
    rw [List.nil_append, List.nil_append, hr, hr, unlines_singleton, cut_append hcut]
  | cons l pre ih =>
    have hrest := ih fun l hl => hpre l (List.mem_cons_of_mem _ hl)
    rw [List.cons_append, List.cons_append, unlines_cons (by simp), unlines_cons (by simp),
      cut_skip hne hn (hpre l List.mem_cons_self), hrest]
    rfl

theorem infix_append_iff (hne : h ≠ []) {c : Char} (hc : c ∉ h) :
    h <:+: x ++ c :: y ↔ h <:+: x ∨ h <:+: y := by
  by_cases hx : h <:+: x
  · exact ⟨fun _ => .inl hx, fun _ => hx.trans (List.prefix_append _ _).isInfix⟩
  · rw [or_iff_right hx, ← cut_isSome_iff, ← cut_isSome_iff, cut_skip hne hc hx, Option.isSome_map]

/-- A pattern without a line feed is in the text if and only if it is in one of the lines. -/
theorem infix_unlines_iff (hne : h ≠ []) (hn : '\n' ∉ h) :
    h <:+: unlines ls ↔ ∃ l ∈ ls, h <:+: l := by
  induction ls with
  | nil => simpa [unlines, join] using hne
  | cons l ls ih =>
    cases ls with
    | nil => simp
    | cons l' ls =>
      rw [unlines_cons_cons, infix_append_iff hne hn, ih]
      simp only [List.exists_mem_cons_iff]

/-- Lines that are not empty make one paragraph. -/
theorem not_infix_unlines (h : ∀ l ∈ ls, l ≠ [] ∧ '\n' ∉ l) :
    ¬ ['\n', '\n'] <:+: unlines ls := by
  have hline : ∀ {l : List Char}, '\n' ∉ l → ¬ ['\n', '\n'] <:+: l := fun hl hin =>
    hl (hin.subset List.mem_cons_self)
  induction ls with
  | nil => simp [unlines, join]
  | cons l ls ih =>
    obtain ⟨hne, hl⟩ := h l List.mem_cons_self
    cases ls with
    | nil => simpa using hline hl
    | cons l' ls =>
      have hrest := ih fun l hl => h l (List.mem_cons_of_mem _ hl)
      obtain ⟨hne', hl'⟩ := h l' (List.mem_cons_of_mem _ List.mem_cons_self)
      have hhead : ¬ ['\n'] <+: unlines (l' :: ls) := by
        rintro ⟨r, hr⟩
        have hh := head?_unlines hne' ls
        rw [← hr] at hh
        exact hl' (List.mem_of_head? hh.symm)
      rw [unlines_cons_cons]
      clear hne h ih
      induction l with
      | nil =>
        rw [List.nil_append, List.infix_cons_iff, not_or]
        exact ⟨fun hp => hhead (List.cons_prefix_cons.mp hp).2, hrest⟩
      | cons c l ih =>
        rw [List.cons_append, List.infix_cons_iff, not_or]
        refine ⟨fun hp => hl ?_, ih fun hc => hl (List.mem_cons_of_mem _ hc)⟩
        rw [(List.cons_prefix_cons.mp hp).1]
        exact List.mem_cons_self

end LiberNovus.Text

import LiberNovus.Foundation.Json.Encoder

/-! The strings of a JSON text. A place is outside of the strings, inside of one, or behind
a backslash; quotes and backslashes lead from one to the other. Outside of strings the
grammar has neither a backslash nor a backtick.

Proved: when a JSON text lies in a string of a longer one, then what is a string of either is
outside of the strings of the other. So the enclosed text has no backtick, and it is not the
text of the same value. -/

namespace LiberNovus.Json

inductive Place where
  | outside | inside | escaped
  deriving DecidableEq, Repr

def Place.next : Place → ℕ → Place
  | .outside, c => if c = quote then .inside else .outside
  | .inside, c => if c = quote then .outside else if c = backslash then .escaped else .inside
  | .escaped, _ => .inside

def Place.after (p : Place) (t : Str) : Place := t.foldl Place.next p

/-- A character that stands in strings only. -/
def Inner (c : ℕ) : Prop := c = backslash ∨ c = backtick

/-- From the given place on, such characters stand in strings only. -/
def Tidy : Place → Str → Prop
  | _, [] => True
  | p, c :: t => (p = .outside → ¬ Inner c) ∧ Tidy (p.next c) t

/-- Tidy text that ends where it began. -/
def Closed (p : Place) (t : Str) : Prop := Tidy p t ∧ p.after t = p

/-- Neither quotes nor characters of strings only. -/
def Plain (t : Str) : Prop := ∀ c ∈ t, c ≠ quote ∧ ¬ Inner c

theorem tidy_append {p : Place} {t r : Str} :
    Tidy p (t ++ r) ↔ Tidy p t ∧ Tidy (p.after t) r := by
  induction t generalizing p with
  | nil => simp [Tidy, Place.after]
  | cons c t ih =>
    rw [List.cons_append, Tidy, Tidy, ih, and_assoc]
    rfl

theorem after_append (p : Place) (t r : Str) : p.after (t ++ r) = (p.after t).after r :=
  List.foldl_append

theorem closed_nil (p : Place) : Closed p [] := ⟨trivial, rfl⟩

theorem Closed.append {p : Place} {t r : Str} (ht : Closed p t) (hr : Closed p r) :
    Closed p (t ++ r) := by
  obtain ⟨ht, hp⟩ := ht
  refine ⟨tidy_append.mpr ⟨ht, ?_⟩, ?_⟩
  · rw [hp]
    exact hr.1
  · rw [after_append, hp, hr.2]

theorem closed_of_plain {p : Place} (hp : p ≠ .escaped) {t : Str} (ht : Plain t) :
    Closed p t := by
  induction t with
  | nil => exact closed_nil p
  | cons c t ih =>
    obtain ⟨hq, hc⟩ := ht c List.mem_cons_self
    have hnext : p.next c = p := by
      cases p with
      | outside => exact if_neg hq
      | inside => rw [Place.next, if_neg hq, if_neg fun hb => hc (.inl hb)]
      | escaped => exact absurd rfl hp
    obtain ⟨htidy, hafter⟩ := ih fun d hd => ht d (List.mem_cons_of_mem _ hd)
    refine ⟨⟨fun _ => hc, ?_⟩, ?_⟩
    · rw [hnext]
      exact htidy
    · rw [Place.after, List.foldl_cons, hnext]
      exact hafter

/-! ### JSON text -/

theorem hexDigit_isSome {c d : ℕ} (h : hexDigit c = some d) : c ≠ quote ∧ c ≠ backslash := by
  constructor <;> rintro rfl <;> cases h

theorem Token.closed {u : Str} {piece : Piece} (h : Token u piece) : Closed .inside u := by
  cases h with
  | plain hq hb => simp [Closed, Tidy, Place.after, Place.next, hq, hb]
  | escape => simp [Closed, Tidy, Place.after, Place.next]
  | coded h =>
    simp only [hexCode, Option.bind_eq_bind, Option.bind_eq_some_iff] at h
    obtain ⟨n₁, h₁, n₂, h₂, n₃, h₃, n₄, h₄, -⟩ := h
    simp [Closed, Tidy, Place.after, Place.next, hexDigit_isSome h₁, hexDigit_isSome h₂,
      hexDigit_isSome h₃, hexDigit_isSome h₄]

theorem Tokens.closed {u : Str} {pieces : List Piece} (h : Tokens u pieces) :
    Closed .inside u := by
  induction h with
  | nil => exact closed_nil _
  | cons h _ ih => exact h.closed.append ih

/-- A string with its quotes. -/
theorem Tokens.closed_quoted {u r : Str} {pieces : List Piece} (h : Tokens u pieces)
    (hr : Closed .outside r) : Closed .outside (quote :: (u ++ quote :: r)) := by
  obtain ⟨htidy, hafter⟩ := h.closed
  refine ⟨⟨fun _ => by simp [Inner], tidy_append.mpr ⟨htidy, ?_⟩⟩, ?_⟩
  · rw [show Place.next .outside quote = .inside from rfl, hafter]
    exact ⟨by simp, hr.1⟩
  · rw [Place.after, List.foldl_cons, show Place.next .outside quote = .inside from rfl,
      List.foldl_append, show List.foldl Place.next .inside u = .inside from hafter]
    exact hr.2

theorem Closed.cons {c : ℕ} {t : Str} (hc : c ≠ quote ∧ ¬ Inner c) (ht : Closed .outside t) :
    Closed .outside (c :: t) :=
  (closed_of_plain (by simp) (t := [c]) (by simpa [Plain] using hc)).append ht

theorem Blank.closed {w : Str} (h : Blank w) : Closed .outside w := by
  refine closed_of_plain (by simp) fun c hc => ?_
  have hb := h c hc
  simp only [isWs, Bool.or_eq_true, beq_iff_eq] at hb
  rcases hb with ((rfl | rfl) | rfl) | rfl <;> simp [Inner]

theorem plain_append {t r : Str} (ht : Plain t) (hr : Plain r) : Plain (t ++ r) := by
  intro c hc
  rcases List.mem_append.mp hc with hc | hc
  · exact ht c hc
  · exact hr c hc

theorem Digits.plain {t : Str} (h : Digits t) : Plain t := by
  intro c hc
  have hd := h c hc
  refine ⟨ne_of_isDigit hd (by decide), ?_⟩
  rintro (hc | hc)
  · exact ne_of_isDigit hd (by decide) hc
  · exact ne_of_isDigit hd (by decide) hc

theorem digits_cons {c : ℕ} {t : Str} (hc : isDigit c = true) (ht : Digits t) :
    Digits (c :: t) := by
  intro d hd
  rcases List.mem_cons.mp hd with rfl | hd
  · exact hc
  · exact ht d hd

theorem plain_cons {c : ℕ} {t : Str} (hc : c ≠ quote ∧ ¬ Inner c) (ht : Plain t) :
    Plain (c :: t) := by
  intro d hd
  rcases List.mem_cons.mp hd with rfl | hd
  · exact hc
  · exact ht d hd

/-! ### The strings of a value -/

section Strings

variable {F : Type}

/-- A string, or a name, of the value at some depth. -/
inductive Value.Holds : Value F → Str → Prop
  | str (s : Str) : Holds (.str s) s
  | item {v : Value F} {items : List (Value F)} {s : Str} (hv : v ∈ items) (h : Holds v s) :
      Holds (.arr items) s
  | name {m : Str × Value F} {members : List (Str × Value F)} (hm : m ∈ members) :
      Holds (.obj members) m.1
  | member {m : Str × Value F} {members : List (Str × Value F)} {s : Str} (hm : m ∈ members)
      (h : Holds m.2 s) : Holds (.obj members) s

def Phrase.Holds : Phrase F → Str → Prop
  | .value v, s => v.Holds s
  | .items vs, s => ∃ v ∈ vs, v.Holds s
  | .members ms, s => ∃ m ∈ ms, s = m.1 ∨ m.2.Holds s

theorem Tokens.join_of_noBackslash {u : Str} {pieces : List Piece} (h : Tokens u pieces)
    (hb : backslash ∉ u) : joinSurrogates pieces = u := by
  induction h with
  | nil => rfl
  | @cons u w piece pieces h ht ih =>
    rw [List.mem_append, not_or] at hb
    cases h with
    | plain => rw [joinSurrogates, ih hb.2, List.singleton_append]
    | escape => exact absurd List.mem_cons_self hb.1
    | coded => exact absurd List.mem_cons_self hb.1

end Strings

section Values

variable {F : Type} [PyFloat F]

theorem Scalar.plain {u : Str} {v : Value F} (h : Scalar u v) : Plain u := by
  cases h with
  | keyword h =>
    simp only [keywords_eq, List.mem_cons, List.not_mem_nil, or_false, Prod.mk.injEq] at h
    rcases h with ⟨rfl, -⟩ | ⟨rfl, -⟩ | ⟨rfl, -⟩ | ⟨rfl, -⟩ | ⟨rfl, -⟩ | ⟨rfl, -⟩ <;>
      simp [Plain, Inner]
  | @number negative ds f x v hd hf hx =>
    have hds : Plain ds := by
      cases hd with
      | zero => simp [Plain, Inner]
      | digits hc _ ht => exact (digits_cons hc ht).plain
    have hfs : Plain f := by
      cases hf with
      | none => simp [Plain]
      | some hd ht => exact plain_cons (by simp [Inner]) (digits_cons hd ht).plain
    have hxs : Plain x := by
      cases hx with
      | none => simp [Plain]
      | some hc hs hd ht =>
        refine plain_cons ?_ (plain_append ?_ (digits_cons hd ht).plain)
        · rcases hc with rfl | rfl <;> simp [Inner]
        · rcases hs with rfl | rfl | rfl <;> simp [Plain, Inner]
    refine plain_append ?_ (plain_append hds (plain_append hfs hxs))
    cases negative <;> simp [Plain, Inner]

/-- The text of a phrase is tidy, and it ends outside of strings. -/
theorem Reads.closed {d : ℕ} {u : Str} {x : Phrase F} (h : Reads d u x) : Closed .outside u := by
  induction h with
  | scalar h => exact closed_of_plain (by simp) h.plain
  | string h => exact h.closed_quoted (closed_nil _)
  | emptyArray hw | emptyObject hw =>
    exact .cons (by simp [Inner]) (hw.closed.append (.cons (by simp [Inner]) (closed_nil _)))
  | array hw _ ih | object hw _ ih => exact .cons (by simp [Inner]) (hw.closed.append ih)
  | lastItem _ hw ih =>
    exact ih.append (hw.closed.append (.cons (by simp [Inner]) (closed_nil _)))
  | item _ hw hw' _ ih iht =>
    exact ih.append (hw.closed.append (.cons (by simp [Inner]) (hw'.closed.append iht)))
  | lastMember hk h₁ h₂ _ h₃ ih =>
    exact hk.closed_quoted (h₁.closed.append (.cons (by simp [Inner]) (h₂.closed.append
      (ih.append (h₃.closed.append (.cons (by simp [Inner]) (closed_nil _)))))))
  | member hk h₁ h₂ _ h₃ h₄ _ ih iht =>
    exact hk.closed_quoted (h₁.closed.append (.cons (by simp [Inner]) (h₂.closed.append
      (ih.append (h₃.closed.append (.cons (by simp [Inner]) (h₄.closed.append iht)))))))

/-! ### Text within a string -/

omit [PyFloat F] in
/-- Text that is tidy from both places has no character of strings only: the two places stay
opposite, and one of them is outside. -/
theorem not_inner_of_tidy {t : Str} (ho : Tidy .outside t) (hi : Tidy .inside t) :
    ∀ c ∈ t, ¬ Inner c := by
  induction t with
  | nil => simp
  | cons c t ih =>
    obtain ⟨hc, ho⟩ := ho
    have hc := hc rfl
    have hb : c ≠ backslash := fun hb => hc (.inl hb)
    have ht : ∀ d ∈ t, ¬ Inner d := by
      by_cases hq : c = quote
      · rw [Place.next, if_pos hq] at ho
        have hi := hi.2
        rw [Place.next, if_pos hq] at hi
        exact ih hi ho
      · rw [Place.next, if_neg hq] at ho
        have hi := hi.2
        rw [Place.next, if_neg hq, if_neg hb] at hi
        exact ih ho hi
    intro d hd
    rcases List.mem_cons.mp hd with rfl | hd
    · exact hc
    · exact ht d hd

/-- Behind a backtick the place is inside of a string. -/
theorem tidy_of_backtick {a b t : Str} (h : Tidy .outside (a ++ backtick :: (b ++ t)))
    (hb : Plain b) : Tidy .inside t := by
  obtain ⟨-, hp, h⟩ := tidy_append.mp h
  have hnext : (Place.after .outside a).next backtick = .inside := by
    cases hplace : Place.after .outside a with
    | outside => exact absurd (.inr rfl) (hp hplace)
    | inside => rfl
    | escaped => rfl
  rw [hnext, tidy_append, (closed_of_plain (by simp) hb).2] at h
  exact h.2

/-- A scalar has no strings. -/
theorem Scalar.holds_not {u s : Str} {v : Value F} (h : Scalar u v) : ¬ v.Holds s := by
  intro hs
  cases h with
  | keyword h =>
    simp only [keywords_eq, List.mem_cons, List.not_mem_nil, or_false, Prod.mk.injEq] at h
    rcases h with ⟨-, rfl⟩ | ⟨-, rfl⟩ | ⟨-, rfl⟩ | ⟨-, rfl⟩ | ⟨-, rfl⟩ | ⟨-, rfl⟩ <;> cases hs
  | number hd hf hx hv =>
    simp only [ofNumber] at hv
    split_ifs at hv <;> cases hv <;> cases hs

/-- Without a backslash the strings of a value are as the text has them. -/
theorem Reads.subset_of_holds {n : ℕ} {u s : Str} {x : Phrase F} (h : Reads n u x) (hb : backslash ∉ u)
    (hs : x.Holds s) : s ⊆ u := by
  induction h with
  | scalar h => exact absurd hs h.holds_not
  | @string _ u pieces h =>
    simp only [List.mem_cons, List.mem_append, not_or] at hb
    cases hs
    rw [h.join_of_noBackslash hb.2.1]
    intro c hc
    simp [hc]
  | emptyArray =>
    cases hs with
    | item hv => cases hv
  | emptyObject =>
    cases hs with
    | name hm => cases hm
    | member hm => cases hm
  | array hw _ ih =>
    simp only [List.mem_cons, List.mem_append, not_or] at hb
    cases hs with
    | item hv hs =>
      intro c hc
      simp [ih hb.2.2 ⟨_, hv, hs⟩ hc]
  | @object _ w u members hw _ ih =>
    simp only [List.mem_cons, List.mem_append, not_or] at hb
    have hsub : s ⊆ u := by
      cases hs with
      | name hm => exact ih hb.2.2 ⟨_, mem_of_mem_toDict hm, .inl rfl⟩
      | member hm hs => exact ih hb.2.2 ⟨_, mem_of_mem_toDict hm, .inr hs⟩
    intro c hc
    simp [hsub hc]
  | lastItem _ _ ih =>
    simp only [List.mem_append, not_or] at hb
    obtain ⟨v, hv, hs⟩ := hs
    obtain rfl := List.mem_singleton.mp hv
    intro c hc
    simp [ih hb.1 hs hc]
  | item _ _ _ _ ih iht =>
    simp only [List.mem_cons, List.mem_append, not_or] at hb
    obtain ⟨v, hv, hs⟩ := hs
    intro c hc
    rcases List.mem_cons.mp hv with rfl | hv
    · simp [ih hb.1 hs hc]
    · simp [iht hb.2.2.2.2 ⟨v, hv, hs⟩ hc]
  | lastMember hk _ _ _ _ ih =>
    simp only [List.mem_cons, List.mem_append, not_or] at hb
    obtain ⟨m, hm, hs⟩ := hs
    obtain rfl := List.mem_singleton.mp hm
    intro c hc
    rcases hs with rfl | hs
    · rw [hk.join_of_noBackslash hb.2.1] at hc
      simp [hc]
    · have := ih (by tauto) hs hc
      simp [this]
  | member hk _ _ _ _ _ _ ih iht =>
    simp only [List.mem_cons, List.mem_append, not_or] at hb
    obtain ⟨m, hm, hs⟩ := hs
    intro c hc
    rcases List.mem_cons.mp hm with rfl | hm
    · rcases hs with rfl | hs
      · rw [hk.join_of_noBackslash hb.2.1] at hc
        simp [hc]
      · have := ih (by tauto) hs hc
        simp [this]
    · have := iht (by tauto) ⟨m, hm, hs⟩ hc
      simp [this]

/-! ### The strings of a text that was written -/

omit [PyFloat F] in
theorem eq_backtick_of_mem_encodeChar {c : ℕ} (h : backtick ∈ encodeChar c) : c = backtick := by
  rcases Nat.lt_or_ge c 0x20 with hc | hc
  · exfalso
    interval_cases c <;> revert h <;> decide
  · unfold encodeChar at h
    split_ifs at h <;> first | omega | simp_all

omit [PyFloat F] in
theorem backtick_of_mem_encodeString {s : Str} (h : backtick ∈ encodeString s) : backtick ∈ s := by
  simp only [encodeString, List.mem_cons, List.mem_append, List.mem_flatMap, List.not_mem_nil,
    or_false] at h
  rcases h with h | ⟨c, hc, h⟩ | h
  · exact absurd h (by decide)
  · exact eq_backtick_of_mem_encodeChar h ▸ hc
  · exact absurd h (by decide)

omit [PyFloat F] in
/-- What stands between brackets is one of the parts, but for the separators. -/
theorem mem_enclose {o c d : ℕ} {parts : List Str} (h : d ∈ enclose o c parts) (ho : d ≠ o)
    (hc : d ≠ c) (hd : d ≠ comma ∧ d ≠ 0x20) : ∃ part ∈ parts, d ∈ part := by
  have hmem : d ∈ [comma, 0x20].intercalate parts := by
    simpa [enclose, ho, hc] using h
  clear h
  induction parts with
  | nil => simp at hmem
  | cons part parts ih =>
    cases parts with
    | nil => exact ⟨part, List.mem_cons_self, by simpa using hmem⟩
    | cons part' parts =>
      rw [List.intercalate_cons_cons] at hmem
      simp only [List.mem_append, List.mem_cons, List.not_mem_nil, or_false, hd]
        at hmem
      rcases hmem with hmem | hmem
      · exact ⟨part, List.mem_cons_self, hmem⟩
      · obtain ⟨part', hpart, hmem⟩ := ih hmem
        exact ⟨part', List.mem_cons_of_mem _ hpart, hmem⟩

theorem exists_of_mem_right {α β : Type} {R : α → β → Prop} {l : List α} {l' : List β}
    (h : List.Forall₂ R l l') {b : β} (hb : b ∈ l') : ∃ a ∈ l, R a b := by
  induction h with
  | nil => cases hb
  | cons hab _ ih =>
    rcases List.mem_cons.mp hb with rfl | hb
    · exact ⟨_, List.mem_cons_self, hab⟩
    · obtain ⟨a, ha, h⟩ := ih hb
      exact ⟨a, List.mem_cons_of_mem _ ha, h⟩

variable [LawfulPyFloat F]

/-- A backtick of the text comes from a string of the value. -/
theorem holds_of_dumps {v : Value F} {u : Str} (h : dumps v = some u) (hu : backtick ∈ u) :
    ∃ s, v.Holds s ∧ backtick ∈ s := by
  induction v using Value.induct generalizing u with
  | null =>
    cases h
    exact absurd hu (by decide)
  | bool b =>
    cases h
    cases b <;> exact absurd hu (by decide)
  | int n =>
    exact absurd (.inr rfl) ((scalar_encodeInt (F := F) h).plain _ hu).2
  | float x =>
    cases h
    exact absurd (.inr rfl) ((LawfulPyFloat.scalar_repr x).plain _ hu).2
  | str s =>
    cases h
    exact ⟨s, .str s, backtick_of_mem_encodeString hu⟩
  | arr items ih =>
    rw [dumps, Option.bind_eq_bind, Option.bind_eq_some_iff] at h
    obtain ⟨parts, hparts, h⟩ := h
    cases h
    obtain ⟨part, hpart, hu⟩ := mem_enclose hu (by decide) (by decide) (by decide)
    obtain ⟨v, hv, hdumps⟩ := exists_of_mem_right (dumpsItems_eq_some.mp hparts) hpart
    obtain ⟨s, hs, hmem⟩ := ih v hv hdumps hu
    exact ⟨s, .item hv hs, hmem⟩
  | obj members ih =>
    rw [dumps, Option.bind_eq_bind, Option.bind_eq_some_iff] at h
    obtain ⟨parts, hparts, h⟩ := h
    cases h
    obtain ⟨part, hpart, hu⟩ := mem_enclose hu (by decide) (by decide) (by decide)
    obtain ⟨m, hm, u, hdumps, rfl⟩ := exists_of_mem_right (dumpsMembers_eq_some.mp hparts) hpart
    simp only [List.mem_append, List.mem_cons] at hu
    rcases hu with hu | hu | hu | hu
    · exact ⟨m.1, .name hm, backtick_of_mem_encodeString hu⟩
    · exact absurd hu (by decide)
    · exact absurd hu (by decide)
    · obtain ⟨s, hs, hmem⟩ := ih m hm hdumps hu
      exact ⟨s, .member hm hs, hmem⟩

/-- Behind a backtick of the text of a value there is no other text of that value. -/
theorem ne_of_quoted {n : ℕ} {v v' : Value F} {a b c d : Str}
    (hs : dumps v = some (a ++ backtick :: (b ++ (c ++ d)))) (hv : v.Distinct) (hb : Plain b)
    (hc : Reads n c (.value v')) : v' ≠ v := by
  have hinside := (tidy_append.mp (tidy_of_backtick (reads_dumps hs hv le_rfl).closed.1 hb)).1
  have hinner := not_inner_of_tidy hc.closed.1 hinside
  rintro rfl
  obtain ⟨s, hheld, hmem⟩ := holds_of_dumps hs (by simp)
  have hsub := hc.subset_of_holds (fun h => hinner _ h (.inl rfl)) hheld
  exact hinner _ (hsub hmem) (.inr rfl)

end Values

end LiberNovus.Json

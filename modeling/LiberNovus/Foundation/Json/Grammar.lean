import LiberNovus.Foundation.Json.Scanner
import LiberNovus.Foundation.Results
import Mathlib.Data.List.Induction
import Mathlib.Data.List.TakeWhile

/-! The grammar that the scanner accepts. `Reads levels u x` says that the text `u` is a value,
or the rest of an array or of an object after its bracket, in which so many arrays and objects
at most stand one within the other.

Proved: the scanner reads from the start of a text what the grammar gives, and leaves the
rest of the text as it is, whatever stands there. With more levels it does the same where it
has not run out of them. -/

namespace LiberNovus.Json

open Results

/-! ### Runs of characters -/

section Runs

variable {p : ℕ → Bool} {l r : Str}

theorem takeWhile_append (hl : ∀ c ∈ l, p c = true) (hr : ∀ c ∈ r.head?, p c = false) :
    (l ++ r).takeWhile p = l := by
  rw [List.takeWhile_append_of_pos hl]
  cases r with
  | nil => simp
  | cons c r => simp [hr c rfl]

theorem dropWhile_append (hl : ∀ c ∈ l, p c = true) (hr : ∀ c ∈ r.head?, p c = false) :
    (l ++ r).dropWhile p = r := by
  rw [List.dropWhile_append_of_pos hl]
  cases r with
  | nil => rfl
  | cons c r => simp [hr c rfl]

end Runs

/-- Only white space. -/
def Blank (w : Str) : Prop := ∀ c ∈ w, isWs c = true

theorem blank_nil : Blank [] := by simp [Blank]

theorem skipWs_append {w : Str} (hw : Blank w) {c : ℕ} (hc : isWs c = false) (r : Str) :
    skipWs (w ++ c :: r) = c :: r := dropWhile_append hw (by simpa using hc)

/-- White space is skipped up to a character that is none. -/
theorem skipWs_split (t : Str) : ∃ w, Blank w ∧ t = w ++ skipWs t :=
  ⟨t.takeWhile isWs, fun _ => List.mem_takeWhile_imp, List.takeWhile_append_dropWhile.symm⟩

/-! ### Strings -/

/-- The text of one character of a string. -/
inductive Token : Str → Piece → Prop
  | plain {c : ℕ} (hq : c ≠ quote) (hb : c ≠ backslash) (hc : 0x20 ≤ c) : Token [c] (.plain c)
  | escape {e n : ℕ} (h : simpleEscape e = some n) : Token [backslash, e] (.plain n)
  | coded {x₁ x₂ x₃ x₄ n : ℕ} (h : hexCode x₁ x₂ x₃ x₄ = some n) :
      Token [backslash, 0x75, x₁, x₂, x₃, x₄] (.coded n)

/-- The text of a string without its quotes. -/
inductive Tokens : Str → List Piece → Prop
  | nil : Tokens [] []
  | cons {u w : Str} {piece : Piece} {pieces : List Piece} (h : Token u piece)
      (ht : Tokens w pieces) : Tokens (u ++ w) (piece :: pieces)

theorem scanPieces_token {u : Str} {piece : Piece} (h : Token u piece) (t : Str) :
    scanPieces (u ++ t) = (do
      let (pieces, rest) ← scanPieces t
      .ok (piece :: pieces, rest)) := by
  rw [scanPieces.eq_def]
  cases h with
  | plain hq hb hc => simp [hq, hb, not_lt.mpr hc]
  | @escape e n h =>
    have he : e ≠ 0x75 := by rintro rfl; simp [simpleEscape] at h
    simp [he, h]
  | coded h => simp [h]

theorem scanPieces_quote (t : Str) : scanPieces (quote :: t) = .ok ([], t) := by
  rw [scanPieces.eq_def]
  simp

/-- A string is scanned when it is made of such characters and then closed. -/
theorem scanPieces_iff {t r : Str} {pieces : List Piece} :
    scanPieces t = .ok (pieces, r) ↔ ∃ u, Tokens u pieces ∧ t = u ++ quote :: r := by
  constructor
  · intro h
    induction t using scanPieces.induct generalizing pieces with
    | case1 => simp [scanPieces] at h
    | case2 rest =>
      rw [scanPieces_quote] at h
      cases h
      exact ⟨[], .nil, rfl⟩
    | case3 | case4 | case6 | case7 | case9 =>
      rw [scanPieces.eq_def] at h
      simp_all
    | case5 x₁ x₂ x₃ x₄ rest n hn _ ih =>
      have ht := scanPieces_token (.coded hn) rest
      simp only [List.cons_append, List.nil_append] at ht
      rw [ht] at h
      simp only [bind_eq_ok, Except.ok.injEq, Prod.mk.injEq, Prod.exists] at h
      obtain ⟨pieces', r', h, rfl, rfl⟩ := h
      obtain ⟨u, hu, rfl⟩ := ih h
      exact ⟨_, .cons (.coded hn) hu, rfl⟩
    | case8 e rest he n hn _ ih =>
      have ht := scanPieces_token (.escape hn) rest
      simp only [List.cons_append, List.nil_append] at ht
      rw [ht] at h
      simp only [bind_eq_ok, Except.ok.injEq, Prod.mk.injEq, Prod.exists] at h
      obtain ⟨pieces', r', h, rfl, rfl⟩ := h
      obtain ⟨u, hu, rfl⟩ := ih h
      exact ⟨_, .cons (.escape hn) hu, rfl⟩
    | case10 c rest hq hb hc ih =>
      have hplain := Token.plain hq hb (not_lt.mp hc)
      have ht := scanPieces_token hplain rest
      simp only [List.cons_append, List.nil_append] at ht
      rw [ht] at h
      simp only [bind_eq_ok, Except.ok.injEq, Prod.mk.injEq, Prod.exists] at h
      obtain ⟨pieces', r', h, rfl, rfl⟩ := h
      obtain ⟨u, hu, rfl⟩ := ih h
      exact ⟨_, .cons hplain hu, rfl⟩
  · rintro ⟨u, hu, rfl⟩
    induction hu with
    | nil => exact scanPieces_quote r
    | cons h ht ih => rw [List.append_assoc, scanPieces_token h, ih]; rfl

theorem scanString_iff {t s r : Str} : scanString t = .ok (s, r) ↔
    ∃ u pieces, Tokens u pieces ∧ s = joinSurrogates pieces ∧ t = u ++ quote :: r := by
  simp only [scanString, bind_eq_ok, scanPieces_iff, Prod.exists, Except.ok.injEq, Prod.mk.injEq]
  constructor
  · rintro ⟨pieces, r', ⟨u, hu, rfl⟩, rfl, rfl⟩
    exact ⟨u, pieces, hu, rfl, rfl⟩
  · rintro ⟨u, pieces, hu, rfl, rfl⟩
    exact ⟨pieces, r, ⟨u, hu, rfl⟩, rfl, rfl⟩

/-! ### Numbers -/

/-- The text does not go on with a digit. -/
def NoDigit (t : Str) : Prop := ∀ c ∈ t.head?, isDigit c = false

/-- The text does not go on with anything that could belong to a number. -/
def Ends (t : Str) : Prop := ∀ c ∈ t.head?, isDigit c = false ∧ c ≠ dot ∧ c ≠ 0x65 ∧ c ≠ 0x45

def Digits (t : Str) : Prop := ∀ c ∈ t, isDigit c = true

/-- An integer without its sign. -/
inductive IntText : Str → Prop
  | zero : IntText [zero]
  | digits {c : ℕ} {t : Str} (hc : isDigit c = true) (hz : c ≠ zero) (ht : Digits t) :
      IntText (c :: t)

inductive FracText : Str → Prop
  | none : FracText []
  | some {d : ℕ} {t : Str} (hd : isDigit d = true) (ht : Digits t) : FracText (dot :: d :: t)

inductive ExpText : Str → Prop
  | none : ExpText []
  | some {c d : ℕ} {sign t : Str} (hc : c = 0x65 ∨ c = 0x45)
      (hs : sign = [] ∨ sign = [0x2b] ∨ sign = [minus]) (hd : isDigit d = true) (ht : Digits t) :
      ExpText (c :: (sign ++ d :: t))

theorem ne_of_isDigit {c d : ℕ} (hc : isDigit c = true) (hd : isDigit d = false) : c ≠ d := by
  rintro rfl
  rw [hc] at hd
  cases hd

theorem Ends.noDigit {t : Str} (h : Ends t) : NoDigit t := fun c hc => (h c hc).1

theorem scanInt_append {ds r : Str} (h : IntText ds) (hr : NoDigit r) :
    scanInt (ds ++ r) = some (ds, r) := by
  cases h with
  | zero => rfl
  | digits hc hz ht =>
    rw [List.cons_append, scanInt, if_neg hz, if_pos hc, takeWhile_append ht hr,
      dropWhile_append ht hr]

theorem intText_of_scanInt {t ds r : Str} (h : scanInt t = some (ds, r)) :
    IntText ds ∧ t = ds ++ r := by
  cases t with
  | nil => cases h
  | cons c t =>
    rw [scanInt] at h
    split at h
    · next hz =>
      cases h
      exact ⟨hz ▸ .zero, rfl⟩
    · next hz =>
      split at h
      · next hc =>
        cases h
        exact ⟨.digits hc hz fun _ => List.mem_takeWhile_imp,
          by rw [List.cons_append, List.takeWhile_append_dropWhile]⟩
      · cases h

theorem scanFrac_append {f r : Str} (h : FracText f) (hr : NoDigit r)
    (hdot : f = [] → r.head? ≠ some dot) : scanFrac (f ++ r) = (f, r) := by
  cases h with
  | none =>
    cases r with
    | nil => rfl
    | cons c r =>
      cases r with
      | nil => rfl
      | cons d r =>
        have hc : c ≠ dot := fun hc => hdot rfl (by rw [hc]; rfl)
        simp [scanFrac, hc]
  | some hd ht =>
    rw [List.cons_append, List.cons_append, scanFrac, if_pos ⟨rfl, hd⟩, takeWhile_append ht hr,
      dropWhile_append ht hr]

theorem fracText_scanFrac (t : Str) :
    FracText (scanFrac t).1 ∧ t = (scanFrac t).1 ++ (scanFrac t).2 := by
  unfold scanFrac
  split
  · split
    · next h =>
      obtain ⟨rfl, hd⟩ := h
      exact ⟨.some hd fun _ => List.mem_takeWhile_imp, by simp [List.takeWhile_append_dropWhile]⟩
    · exact ⟨.none, rfl⟩
  · exact ⟨.none, rfl⟩

theorem scanSign_cases (t : Str) : ((scanSign t).1 = [] ∨ (scanSign t).1 = [0x2b] ∨
    (scanSign t).1 = [minus]) ∧ t = (scanSign t).1 ++ (scanSign t).2 := by
  unfold scanSign
  split
  · split
    · next h => exact ⟨.inr (h.imp (by simp) (by simp)), rfl⟩
    · exact ⟨.inl rfl, rfl⟩
  · exact ⟨.inl rfl, rfl⟩

theorem scanSign_append {sign t : Str} {d : ℕ} (hs : sign = [] ∨ sign = [0x2b] ∨ sign = [minus])
    (hd : isDigit d = true) : scanSign (sign ++ d :: t) = (sign, d :: t) := by
  have hd' : ¬ (d = 0x2b ∨ d = minus) := by
    rintro (rfl | rfl) <;> exact absurd hd (by decide)
  rcases hs with rfl | rfl | rfl
  · rw [List.nil_append, scanSign, if_neg hd']
  · rfl
  · rfl

theorem scanExp_append {x r : Str} (h : ExpText x) (hr : Ends r) : scanExp (x ++ r) = (x, r) := by
  cases h with
  | none =>
    cases r with
    | nil => rfl
    | cons c r =>
      obtain ⟨-, -, he, hE⟩ := hr c rfl
      rw [List.nil_append, scanExp, if_neg (by simp [he, hE])]
  | @some c d sign t hc hs hd ht =>
    rw [List.cons_append, List.append_assoc, List.cons_append, scanExp, if_pos hc,
      scanSign_append hs hd]
    simp only [hd, if_true]
    rw [takeWhile_append ht hr.noDigit, dropWhile_append ht hr.noDigit, List.cons_append]

theorem expText_scanExp (t : Str) : ExpText (scanExp t).1 ∧ t = (scanExp t).1 ++ (scanExp t).2 := by
  cases t with
  | nil => exact ⟨.none, rfl⟩
  | cons c t =>
    rw [scanExp]
    split
    · next hc =>
      obtain ⟨hs, ht⟩ := scanSign_cases t
      split
      · next d t' hd' =>
        split
        · next hd =>
          refine ⟨.some hc hs hd fun _ => List.mem_takeWhile_imp, ?_⟩
          rw [hd'] at ht
          simp only [List.cons_append, List.append_assoc, List.takeWhile_append_dropWhile]
          rw [← ht]
        · exact ⟨.none, rfl⟩
      · exact ⟨.none, rfl⟩
    · exact ⟨.none, rfl⟩

section Scalars

variable {F : Type} [PyFloat F]

/-- A word, or a number with its sign. -/
inductive Scalar : Str → Value F → Prop
  | keyword {u : Str} {v : Value F} (h : (u, v) ∈ keywords) : Scalar u v
  | number {negative : Bool} {ds f x : Str} {v : Value F} (hd : IntText ds) (hf : FracText f)
      (hx : ExpText x) (hv : ofNumber negative ds f x = .ok v) :
      Scalar ((if negative then [minus] else []) ++ (ds ++ (f ++ x))) v

theorem IntText.head {ds : Str} (h : IntText ds) : ∃ c t, ds = c :: t ∧ isDigit c = true := by
  cases h with
  | zero => exact ⟨_, _, rfl, by decide⟩
  | digits hc => exact ⟨_, _, rfl, hc⟩

theorem scanNumber_append {negative : Bool} {ds f x r : Str} {v : Value F} (hd : IntText ds)
    (hf : FracText f) (hx : ExpText x) (hv : ofNumber negative ds f x = .ok v) (hr : Ends r) :
    scanNumber ((if negative then [minus] else []) ++ (ds ++ (f ++ x)) ++ r) = .ok (v, r) := by
  have hxr : NoDigit (x ++ r) ∧ (x ++ r).head? ≠ some dot := by
    cases hx with
    | none => exact ⟨hr.noDigit, fun h => (hr dot h).2.1 rfl⟩
    | some hc =>
      rcases hc with rfl | rfl <;> exact ⟨by simp [NoDigit, isDigit], by simp⟩
  have hfr : NoDigit (f ++ (x ++ r)) := by
    cases hf with
    | none => exact hxr.1
    | some =>
      intro c hc
      obtain rfl := Option.some.inj hc
      decide
  obtain ⟨c, t, hct, hc⟩ := hd.head
  have hint : scanInt (ds ++ (f ++ (x ++ r))) = some (ds, f ++ (x ++ r)) := scanInt_append hd hfr
  have hfrac : scanFrac (f ++ (x ++ r)) = (f, x ++ r) := scanFrac_append hf hxr.1 fun _ => hxr.2
  have hexp : scanExp (x ++ r) = (x, r) := scanExp_append hx hr
  have hhead : c ≠ minus := by rintro rfl; exact absurd hc (by decide)
  cases negative with
  | false =>
    have hn : ¬ (ds ++ (f ++ (x ++ r))).head? = some minus := by simp [hct, hhead]
    simp only [Bool.false_eq_true, if_false, List.nil_append, List.append_assoc, scanNumber]
    simp only [hn, decide_false, if_false, hint, hfrac, hexp, hv]
    rfl
  | true =>
    simp only [if_true, List.cons_append, List.nil_append, List.append_assoc, scanNumber,
      List.head?_cons, decide_true, List.tail_cons, hint, hfrac, hexp, hv]
    rfl

theorem scalar_of_scanNumber {t r : Str} {v : Value F} (h : scanNumber t = .ok (v, r)) :
    ∃ u, Scalar u v ∧ t = u ++ r := by
  unfold scanNumber at h
  dsimp only at h
  split at h
  · cases h
  · next ds t' hint =>
    obtain ⟨v', hv, h⟩ := bind_eq_ok.mp h
    cases h
    obtain ⟨hd, ht⟩ := intText_of_scanInt hint
    obtain ⟨hf, ht'⟩ := fracText_scanFrac t'
    obtain ⟨hx, ht''⟩ := expText_scanExp (scanFrac t').2
    refine ⟨_, .number hd hf hx hv, ?_⟩
    rw [List.append_assoc, List.append_assoc, List.append_assoc, ← ht'', ← ht', ← ht]
    by_cases hn : t.head? = some minus
    · obtain ⟨t₀, rfl⟩ := List.head?_eq_some_iff.mp hn
      simp
    · simp [hn]

theorem keywords_eq : keywords (F := F) =
    [([0x6e, 0x75, 0x6c, 0x6c], .null), ([0x74, 0x72, 0x75, 0x65], .bool true),
      ([0x66, 0x61, 0x6c, 0x73, 0x65], .bool false),
      ([0x4e, 0x61, 0x4e], .float (PyFloat.ofConstant .nan)),
      ([0x49, 0x6e, 0x66, 0x69, 0x6e, 0x69, 0x74, 0x79], .float (PyFloat.ofConstant .infinity)),
      ([0x2d, 0x49, 0x6e, 0x66, 0x69, 0x6e, 0x69, 0x74, 0x79],
        .float (PyFloat.ofConstant .minusInfinity))] := by
  unfold keywords
  rfl

/-- No word starts like a number. -/
theorem keywords_number {c : ℕ} {t : Str} (h : isDigit c = true ∨
    c = minus ∧ ∃ d ∈ t.head?, isDigit d = true) :
    (keywords (F := F)).find? (fun w => w.1.isPrefixOf (c :: t)) = none := by
  rw [List.find?_eq_none]
  intro w hw
  simp only [keywords_eq, List.mem_cons, List.not_mem_nil, or_false] at hw
  rw [List.isPrefixOf_iff_prefix]
  rintro ⟨r, hr⟩
  rcases hw with rfl | rfl | rfl | rfl | rfl | rfl
  all_goals
    obtain ⟨rfl, rfl⟩ := List.cons_eq_cons.mp hr
    rcases h with h | ⟨h, d, hd, hd'⟩
    · exact absurd h (by decide)
    · first
      | exact absurd h (by decide)
      | obtain rfl := Option.some.inj hd
        exact absurd hd' (by decide)

theorem scanScalar_keyword {u r : Str} {v : Value F} (h : (u, v) ∈ keywords (F := F)) :
    scanScalar (u ++ r) = .ok (v, r) := by
  simp only [keywords_eq, List.mem_cons, List.not_mem_nil, or_false, Prod.mk.injEq] at h
  rcases h with ⟨rfl, rfl⟩ | ⟨rfl, rfl⟩ | ⟨rfl, rfl⟩ | ⟨rfl, rfl⟩ | ⟨rfl, rfl⟩ | ⟨rfl, rfl⟩ <;>
    simp [scanScalar, keywords_eq, List.isPrefixOf]

theorem scanScalar_append {u r : Str} {v : Value F} (h : Scalar u v) (hr : Ends r) :
    scanScalar (u ++ r) = .ok (v, r) := by
  cases h with
  | keyword h => exact scanScalar_keyword h
  | @number negative ds f x v hd hf hx hv =>
    obtain ⟨c, t, rfl, hc⟩ := hd.head
    have hfind : (keywords (F := F)).find? (fun w => w.1.isPrefixOf
        ((if negative then [minus] else []) ++ (c :: t ++ (f ++ x)) ++ r)) = none := by
      cases negative with
      | false => exact keywords_number (.inl hc)
      | true => exact keywords_number (.inr ⟨rfl, c, rfl, hc⟩)
    rw [scanScalar, hfind]
    exact scanNumber_append hd hf hx hv hr

theorem scalar_of_scanScalar {t r : Str} {v : Value F} (h : scanScalar t = .ok (v, r)) :
    ∃ u, Scalar u v ∧ t = u ++ r := by
  unfold scanScalar at h
  split at h
  · next word v' hfind =>
    cases h
    have hprefix : word.isPrefixOf t = true :=
      List.find?_some (p := fun w : Str × Value F => w.1.isPrefixOf t) hfind
    obtain ⟨w, hw⟩ := List.isPrefixOf_iff_prefix.mp hprefix
    refine ⟨word, .keyword (List.mem_of_find?_eq_some hfind), ?_⟩
    rw [← hw, List.drop_left]
  · exact scalar_of_scanNumber h

end Scalars

/-! ### Values -/

/-- A value, or what follows the bracket of an array or of an object that is not empty. -/
inductive Phrase (F : Type) where
  | value (v : Value F)
  | items (items : List (Value F))
  | members (members : List (Str × Value F))

section Phrases

variable {F : Type} [PyFloat F]

/-- The text of a phrase; that of items and members includes the closing bracket. -/
inductive Reads : ℕ → Str → Phrase F → Prop
  | scalar {d : ℕ} {u : Str} {v : Value F} (h : Scalar u v) : Reads d u (.value v)
  | string {d : ℕ} {u : Str} {pieces : List Piece} (h : Tokens u pieces) :
      Reads d (quote :: (u ++ [quote])) (.value (.str (joinSurrogates pieces)))
  | emptyArray {d : ℕ} {w : Str} (hw : Blank w) :
      Reads (d + 1) (openBracket :: (w ++ [closeBracket])) (.value (.arr []))
  | array {d : ℕ} {w u : Str} {items : List (Value F)} (hw : Blank w)
      (h : Reads d u (.items items)) :
      Reads (d + 1) (openBracket :: (w ++ u)) (.value (.arr items))
  | emptyObject {d : ℕ} {w : Str} (hw : Blank w) :
      Reads (d + 1) (openBrace :: (w ++ [closeBrace])) (.value (.obj []))
  | object {d : ℕ} {w u : Str} {members : List (Str × Value F)} (hw : Blank w)
      (h : Reads d u (.members members)) :
      Reads (d + 1) (openBrace :: (w ++ u)) (.value (.obj (toDict members)))
  | lastItem {d : ℕ} {u w : Str} {v : Value F} (h : Reads d u (.value v)) (hw : Blank w) :
      Reads d (u ++ (w ++ [closeBracket])) (.items [v])
  | item {d : ℕ} {u w w' t : Str} {v : Value F} {items : List (Value F)}
      (h : Reads d u (.value v)) (hw : Blank w) (hw' : Blank w') (ht : Reads d t (.items items)) :
      Reads d (u ++ (w ++ comma :: (w' ++ t))) (.items (v :: items))
  | lastMember {d : ℕ} {k w₁ w₂ w₃ u : Str} {pieces : List Piece} {v : Value F}
      (hk : Tokens k pieces) (h₁ : Blank w₁) (h₂ : Blank w₂) (h : Reads d u (.value v))
      (h₃ : Blank w₃) :
      Reads d (quote :: (k ++ quote :: (w₁ ++ colon :: (w₂ ++ (u ++ (w₃ ++ [closeBrace]))))))
        (.members [(joinSurrogates pieces, v)])
  | member {d : ℕ} {k w₁ w₂ w₃ w₄ u t : Str} {pieces : List Piece} {v : Value F}
      {members : List (Str × Value F)} (hk : Tokens k pieces) (h₁ : Blank w₁) (h₂ : Blank w₂)
      (h : Reads d u (.value v)) (h₃ : Blank w₃) (h₄ : Blank w₄)
      (ht : Reads d t (.members members)) :
      Reads d (quote :: (k ++ quote :: (w₁ ++ colon :: (w₂ ++ (u ++ (w₃ ++ comma :: (w₄ ++ t)))))))
        (.members ((joinSurrogates pieces, v) :: members))

/-- What may be nested so deep may be nested deeper. -/
theorem Reads.mono {d d' : ℕ} {u : Str} {x : Phrase F} (h : Reads d u x) (hle : d ≤ d') :
    Reads d' u x := by
  induction h generalizing d' with
  | scalar h => exact .scalar h
  | string h => exact .string h
  | emptyArray hw =>
    obtain ⟨d', rfl⟩ := Nat.exists_eq_succ_of_ne_zero (Nat.pos_iff_ne_zero.mp (Nat.zero_lt_of_lt hle))
    exact .emptyArray hw
  | array hw _ ih =>
    obtain ⟨d', rfl⟩ := Nat.exists_eq_succ_of_ne_zero (Nat.pos_iff_ne_zero.mp (Nat.zero_lt_of_lt hle))
    exact .array hw (ih (Nat.le_of_succ_le_succ hle))
  | emptyObject hw =>
    obtain ⟨d', rfl⟩ := Nat.exists_eq_succ_of_ne_zero (Nat.pos_iff_ne_zero.mp (Nat.zero_lt_of_lt hle))
    exact .emptyObject hw
  | object hw _ ih =>
    obtain ⟨d', rfl⟩ := Nat.exists_eq_succ_of_ne_zero (Nat.pos_iff_ne_zero.mp (Nat.zero_lt_of_lt hle))
    exact .object hw (ih (Nat.le_of_succ_le_succ hle))
  | lastItem _ hw ih => exact .lastItem (ih hle) hw
  | item _ hw hw' _ ih iht => exact .item (ih hle) hw hw' (iht hle)
  | lastMember hk h₁ h₂ _ h₃ ih => exact .lastMember hk h₁ h₂ (ih hle) h₃
  | member hk h₁ h₂ _ h₃ h₄ _ ih iht => exact .member hk h₁ h₂ (ih hle) h₃ h₄ (iht hle)

/-- The characters that scalars start with, beside the digits. -/
def scalarHeads : List ℕ := [minus, 0x6e, 0x74, 0x66, 0x4e, 0x49]

theorem Scalar.head_of {Q : ℕ → Prop} (hdigit : ∀ c, isDigit c = true → Q c)
    (hother : ∀ c ∈ scalarHeads, Q c) {u : Str} {v : Value F} (h : Scalar u v) :
    ∃ c t, u = c :: t ∧ Q c := by
  cases h with
  | keyword h =>
    simp only [keywords_eq, List.mem_cons, List.not_mem_nil, or_false, Prod.mk.injEq] at h
    rcases h with ⟨rfl, -⟩ | ⟨rfl, -⟩ | ⟨rfl, -⟩ | ⟨rfl, -⟩ | ⟨rfl, -⟩ | ⟨rfl, -⟩ <;>
      exact ⟨_, _, rfl, hother _ (by decide)⟩
  | @number negative ds f x v hd =>
    cases negative with
    | true => exact ⟨minus, _, rfl, hother _ (by decide)⟩
    | false =>
      obtain ⟨c, t, rfl, hc⟩ := hd.head
      exact ⟨c, t ++ (f ++ x), rfl, hdigit c hc⟩

theorem isWs_of_isDigit {c : ℕ} (hc : isDigit c = true) : isWs c = false := by
  simp only [isWs, Bool.or_eq_false_iff, beq_eq_false_iff_ne]
  exact ⟨⟨⟨ne_of_isDigit hc (by decide), ne_of_isDigit hc (by decide)⟩,
    ne_of_isDigit hc (by decide)⟩, ne_of_isDigit hc (by decide)⟩

/-- What a phrase starts with: no white space and no closing bracket. -/
theorem Reads.head {d : ℕ} {u : Str} {x : Phrase F} (h : Reads d u x) :
    ∃ c t, u = c :: t ∧ isWs c = false ∧ c ≠ closeBracket ∧ c ≠ closeBrace := by
  induction h with
  | scalar h =>
    refine h.head_of (fun c hc => ⟨isWs_of_isDigit hc, ?_, ?_⟩) (by decide)
    · exact ne_of_isDigit hc (by decide)
    · exact ne_of_isDigit hc (by decide)
  | string | emptyArray | array | emptyObject | object | lastMember | member =>
    exact ⟨_, _, rfl, by decide, by decide, by decide⟩
  | lastItem _ _ ih | item _ _ _ _ ih =>
    obtain ⟨c, t, rfl, hc⟩ := ih
    exact ⟨c, _, rfl, hc⟩

/-- A scalar does not start like a string, an array or an object. -/
theorem Scalar.head {u : Str} {v : Value F} (h : Scalar u v) :
    ∃ c t, u = c :: t ∧ c ≠ quote ∧ c ≠ openBrace ∧ c ≠ openBracket := by
  refine h.head_of (fun c hc => ⟨?_, ?_, ?_⟩) (by decide)
  all_goals exact ne_of_isDigit hc (by decide)

/-- White space, a comma and a closing bracket end a number. -/
theorem ends_append {w : Str} (hw : Blank w) {c : ℕ} (hc : c = comma ∨ c = closeBracket ∨
    c = closeBrace) (r : Str) : Ends (w ++ c :: r) := by
  intro d hd
  cases w with
  | nil =>
    obtain rfl := Option.some.inj hd
    rcases hc with rfl | rfl | rfl <;> decide
  | cons d' w =>
    obtain rfl := Option.some.inj hd
    have hb := hw d' List.mem_cons_self
    simp only [isWs, Bool.or_eq_true, beq_iff_eq] at hb
    rcases hb with ((rfl | rfl) | rfl) | rfl <;> decide

/-! ### The scanner reads the grammar -/

/-- What the scanner does on the text of a phrase with something behind it: a value that is a
number has to be told from what follows it. -/
def Scans (d : ℕ) (u : Str) : Phrase F → Prop
  | .value v => ∀ r, Ends r ∨ u.head? = some openBrace → scanOnce d (u ++ r) = .ok (v, r)
  | .items items => ∀ k r, u.length ≤ k → scanItems (scanOnce d) k (u ++ r) = .ok (items, r)
  | .members members => ∀ k r, u.length ≤ k →
      scanMembers (scanOnce d) k (u ++ r) = .ok (members, r)

theorem scanOnce_quote (d : ℕ) (t : Str) : scanOnce (F := F) d (quote :: t) = (do
    let (s, t) ← scanString t
    .ok (.str s, t)) := by
  cases d <;> rfl

theorem scanOnce_brace (d : ℕ) (t : Str) :
    scanOnce (F := F) (d + 1) (openBrace :: t) = scanObject (scanOnce d) t.length t := rfl

theorem scanOnce_bracket (d : ℕ) (t : Str) :
    scanOnce (F := F) (d + 1) (openBracket :: t) = scanArray (scanOnce d) t.length t := rfl

theorem scanOnce_scalar {c : ℕ} (hq : c ≠ quote) (hb : c ≠ openBrace) (hb' : c ≠ openBracket)
    (d : ℕ) (t : Str) : scanOnce (F := F) d (c :: t) = scanScalar (c :: t) := by
  rw [scanOnce.eq_def]
  simp only [if_neg hq, if_neg hb, if_neg hb']

/-- The text of a phrase comes up behind the white space. -/
theorem skipWs_phrase {d : ℕ} {w u : Str} (hw : Blank w) {x : Phrase F} (h : Reads d u x) (r : Str) :
    skipWs (w ++ (u ++ r)) = u ++ r := by
  obtain ⟨c, t, rfl, hc, -⟩ := h.head
  exact skipWs_append hw hc _

/-- A phrase is not an empty text. -/
theorem Reads.length_pos {d : ℕ} {u : Str} {x : Phrase F} (h : Reads d u x) : 0 < u.length := by
  obtain ⟨c, t, rfl, -⟩ := h.head
  exact Nat.succ_pos _

theorem scanArray_items {d k : ℕ} {w u r : Str} {items : List (Value F)} (hw : Blank w)
    (h : Reads d u (.items items)) (hs : scanItems (scanOnce d) k (u ++ r) = .ok (items, r)) :
    scanArray (scanOnce d) k (w ++ (u ++ r)) = .ok (.arr items, r) := by
  rw [scanArray, skipWs_phrase hw h]
  obtain ⟨c, t, rfl, -, hc, -⟩ := h.head
  rw [List.cons_append] at hs ⊢
  simp only [if_neg hc, hs]
  rfl

theorem scanObject_members {d k : ℕ} {w u r : Str} {members : List (Str × Value F)} (hw : Blank w)
    (h : Reads d u (.members members))
    (hs : scanMembers (scanOnce d) k (u ++ r) = .ok (members, r)) :
    scanObject (scanOnce d) k (w ++ (u ++ r)) = .ok (.obj (toDict members), r) := by
  rw [scanObject, skipWs_phrase hw h]
  obtain ⟨c, t, rfl, -, -, hc⟩ := h.head
  rw [List.cons_append] at hs ⊢
  simp only [if_neg hc, hs]
  rfl

/-- The name of a member, up to the first character of its value. -/
theorem scan_name {d : ℕ} {k w₁ w₂ u r : Str} {pieces : List Piece} {v : Value F}
    (hk : Tokens k pieces) (h₁ : Blank w₁) (h₂ : Blank w₂) (h : Reads d u (.value v)) :
    expect quote (quote :: (k ++ quote :: (w₁ ++ colon :: (w₂ ++ (u ++ r))))) =
        .ok (k ++ quote :: (w₁ ++ colon :: (w₂ ++ (u ++ r)))) ∧
      scanString (k ++ quote :: (w₁ ++ colon :: (w₂ ++ (u ++ r)))) =
        .ok (joinSurrogates pieces, w₁ ++ colon :: (w₂ ++ (u ++ r))) ∧
      expect colon (skipWs (w₁ ++ colon :: (w₂ ++ (u ++ r)))) = .ok (w₂ ++ (u ++ r)) ∧
      skipWs (w₂ ++ (u ++ r)) = u ++ r := by
  refine ⟨by simp [expect], scanString_iff.mpr ⟨k, pieces, hk, rfl, rfl⟩, ?_,
    skipWs_phrase h₂ h r⟩
  rw [skipWs_append h₁ (by decide)]
  simp [expect]

/-- The scanner reads every text of the grammar, whatever comes behind it. -/
theorem scans_of_reads {d : ℕ} {u : Str} {x : Phrase F} (h : Reads d u x) : Scans d u x := by
  induction h with
  | scalar h =>
    intro r hr
    obtain ⟨c, t, rfl, hq, hb, hb'⟩ := h.head
    have hr' : Ends r := hr.resolve_right (by simpa using hb)
    rw [List.cons_append, scanOnce_scalar hq hb hb', ← List.cons_append]
    exact scanScalar_append h hr'
  | @string d u pieces h =>
    intro r _
    have hs : scanString (u ++ [quote] ++ r) = .ok (joinSurrogates pieces, r) :=
      scanString_iff.mpr ⟨u, pieces, h, rfl, by simp⟩
    rw [List.cons_append, scanOnce_quote, hs]
    rfl
  | @emptyArray d w hw =>
    intro r _
    have hskip : skipWs (w ++ [closeBracket] ++ r) = closeBracket :: r := by
      rw [List.append_assoc]
      exact skipWs_append hw (by decide) r
    rw [List.cons_append, scanOnce_bracket, scanArray, hskip]
    rfl
  | @array d w u items hw h ih =>
    intro r _
    rw [List.cons_append, List.append_assoc, scanOnce_bracket]
    exact scanArray_items hw h (ih _ r (by simp only [List.length_append]; omega))
  | @emptyObject d w hw =>
    intro r _
    have hskip : skipWs (w ++ [closeBrace] ++ r) = closeBrace :: r := by
      rw [List.append_assoc]
      exact skipWs_append hw (by decide) r
    rw [List.cons_append, scanOnce_brace, scanObject, hskip]
    rfl
  | @object d w u members hw h ih =>
    intro r _
    rw [List.cons_append, List.append_assoc, scanOnce_brace]
    exact scanObject_members hw h (ih _ r (by simp only [List.length_append]; omega))
  | @lastItem d u w v h hw ih =>
    intro k r hk
    have hu := h.length_pos
    rw [List.length_append] at hk
    obtain ⟨k, rfl⟩ : ∃ k', k = k' + 1 := ⟨k - 1, by omega⟩
    have hscan := ih (w ++ closeBracket :: r) (.inl (ends_append hw (by simp) r))
    rw [List.append_assoc, List.append_assoc, List.singleton_append, scanItems, hscan]
    simp only [bind, Except.bind]
    rw [skipWs_append hw (by decide)]
    rfl
  | @item d u w w' t v items h hw hw' ht ih iht =>
    intro k r hk
    have hu := h.length_pos
    simp only [List.length_append, List.length_cons] at hk
    obtain ⟨k, rfl⟩ : ∃ k', k = k' + 1 := ⟨k - 1, by omega⟩
    have hscan := ih (w ++ comma :: (w' ++ (t ++ r))) (.inl (ends_append hw (by simp) _))
    have hrest := iht k r (by omega)
    simp only [List.append_assoc, List.cons_append]
    rw [scanItems, hscan]
    simp only [bind, Except.bind]
    rw [skipWs_append hw (by decide)]
    simp only [if_neg (show comma ≠ closeBracket by decide), if_true]
    rw [skipWs_phrase hw' ht, hrest]
  | @lastMember d k w₁ w₂ w₃ u pieces v hk h₁ h₂ h h₃ ih =>
    intro j r hj
    simp only [List.length_append, List.length_cons] at hj
    obtain ⟨j, rfl⟩ : ∃ j', j = j' + 1 := ⟨j - 1, by omega⟩
    have hscan := ih (w₃ ++ closeBrace :: r) (.inl (ends_append h₃ (by simp) r))
    obtain ⟨hq, hname, hc, hskip⟩ := scan_name (r := w₃ ++ closeBrace :: r) hk h₁ h₂ h
    simp only [List.append_assoc, List.cons_append, List.nil_append]
    rw [scanMembers, hq]
    simp only [bind, Except.bind]
    rw [hname]
    simp only [hc, hskip, hscan]
    rw [skipWs_append h₃ (by decide)]
    rfl
  | @member d k w₁ w₂ w₃ w₄ u t pieces v members hk h₁ h₂ h h₃ h₄ ht ih iht =>
    intro j r hj
    simp only [List.length_append, List.length_cons] at hj
    obtain ⟨j, rfl⟩ : ∃ j', j = j' + 1 := ⟨j - 1, by omega⟩
    have hscan := ih (w₃ ++ comma :: (w₄ ++ (t ++ r))) (.inl (ends_append h₃ (by simp) _))
    have hrest := iht j r (by omega)
    obtain ⟨hq, hname, hc, hskip⟩ := scan_name (r := w₃ ++ comma :: (w₄ ++ (t ++ r))) hk h₁ h₂ h
    simp only [List.append_assoc, List.cons_append]
    rw [scanMembers, hq]
    simp only [bind, Except.bind]
    rw [hname]
    simp only [hc, hskip, hscan]
    rw [skipWs_append h₃ (by decide)]
    simp only [if_neg (show comma ≠ closeBrace by decide), if_true]
    rw [skipWs_phrase h₄ ht, hrest]

/-! ### The scanner reads nothing else -/

/-- What a scanner of values reads is the text of a value. -/
def Sound (d : ℕ) (scan : Str → Except ScanError (Value F × Str)) : Prop :=
  ∀ t v r, scan t = .ok (v, r) → ∃ u, Reads d u (.value v) ∧ t = u ++ r

omit [PyFloat F] in
theorem eq_cons_of_expect {c : ℕ} {t r : Str} (h : expect c t = .ok r) : t = c :: r := by
  cases t with
  | nil => cases h
  | cons d t =>
    rw [expect] at h
    split at h
    · next hd =>
      cases h
      rw [hd]
    · cases h

theorem reads_of_scanItems {d k : ℕ} {scan : Str → Except ScanError (Value F × Str)}
    (hscan : Sound d scan) {t r : Str} {items : List (Value F)} (h : scanItems scan k t = .ok (items, r)) :
    ∃ u, Reads d u (.items items) ∧ t = u ++ r := by
  induction k generalizing t items with
  | zero => cases h
  | succ k ih =>
    rw [scanItems, bind_eq_ok] at h
    obtain ⟨⟨v, t₁⟩, hv, h⟩ := h
    obtain ⟨u, hu, rfl⟩ := hscan t v t₁ hv
    obtain ⟨w, hw, ht₁⟩ := skipWs_split t₁
    dsimp only at h
    split at h
    · cases h
    · next c t₂ hc =>
      rw [hc] at ht₁
      subst ht₁
      split at h
      · next he =>
        cases h
        exact ⟨_, .lastItem hu hw, by simp [he]⟩
      · split at h
        · next he =>
          rw [bind_eq_ok] at h
          obtain ⟨⟨items', r'⟩, hi, h⟩ := h
          cases h
          obtain ⟨w', hw', ht₂⟩ := skipWs_split t₂
          obtain ⟨u', hu', ht₃⟩ := ih hi
          rw [ht₃] at ht₂
          exact ⟨_, .item hu hw hw' hu', by rw [he, ht₂]; simp⟩
        · cases h

theorem reads_of_scanMembers {d k : ℕ} {scan : Str → Except ScanError (Value F × Str)}
    (hscan : Sound d scan) {t r : Str} {members : List (Str × Value F)}
    (h : scanMembers scan k t = .ok (members, r)) :
    ∃ u, Reads d u (.members members) ∧ t = u ++ r := by
  induction k generalizing t members with
  | zero => cases h
  | succ k ih =>
    simp only [scanMembers, bind_eq_ok] at h
    obtain ⟨t₁, hq, ⟨name, t₂⟩, hs, t₃, hc, ⟨v, t₄⟩, hv, h⟩ := h
    obtain rfl := eq_cons_of_expect hq
    obtain ⟨k₁, pieces, hk, rfl, rfl⟩ := scanString_iff.mp hs
    obtain ⟨w₁, hw₁, ht₂⟩ := skipWs_split t₂
    rw [eq_cons_of_expect hc] at ht₂
    obtain ⟨w₂, hw₂, ht₃⟩ := skipWs_split t₃
    obtain ⟨u, hu, hvu⟩ := hscan _ v t₄ hv
    rw [hvu] at ht₃
    obtain ⟨w₃, hw₃, ht₄⟩ := skipWs_split t₄
    dsimp only at h
    split at h
    · cases h
    · next c t₅ hd =>
      rw [hd] at ht₄
      split at h
      · next he =>
        cases h
        exact ⟨_, .lastMember hk hw₁ hw₂ hu hw₃, by rw [ht₂, ht₃, ht₄, he]; simp⟩
      · split at h
        · next he =>
          rw [bind_eq_ok] at h
          obtain ⟨⟨members', r'⟩, hi, h⟩ := h
          cases h
          obtain ⟨w₄, hw₄, ht₅⟩ := skipWs_split t₅
          obtain ⟨u', hu', ht₆⟩ := ih hi
          rw [ht₆] at ht₅
          exact ⟨_, .member hk hw₁ hw₂ hu hw₃ hw₄ hu', by rw [ht₂, ht₃, ht₄, he, ht₅]; simp⟩
        · cases h

theorem reads_of_scanArray {d k : ℕ} {scan : Str → Except ScanError (Value F × Str)}
    (hscan : Sound d scan) {t r : Str} {v : Value F} (h : scanArray scan k t = .ok (v, r)) :
    ∃ u, Reads (d + 1) (openBracket :: u) (.value v) ∧ t = u ++ r := by
  obtain ⟨w, hw, ht⟩ := skipWs_split t
  rw [scanArray] at h
  split at h
  · cases h
  · next c t' hc =>
    rw [hc] at ht
    split at h
    · next he =>
      cases h
      exact ⟨_, .emptyArray hw, by rw [ht, he]; simp⟩
    · obtain ⟨⟨items, r'⟩, hi, h⟩ := bind_eq_ok.mp h
      cases h
      obtain ⟨u, hu, hut⟩ := reads_of_scanItems hscan hi
      exact ⟨_, .array hw hu, by rw [ht, hut]; simp⟩

theorem reads_of_scanObject {d k : ℕ} {scan : Str → Except ScanError (Value F × Str)}
    (hscan : Sound d scan) {t r : Str} {v : Value F} (h : scanObject scan k t = .ok (v, r)) :
    ∃ u, Reads (d + 1) (openBrace :: u) (.value v) ∧ t = u ++ r := by
  obtain ⟨w, hw, ht⟩ := skipWs_split t
  rw [scanObject] at h
  split at h
  · cases h
  · next c t' hc =>
    rw [hc] at ht
    split at h
    · next he =>
      cases h
      exact ⟨_, .emptyObject hw, by rw [ht, he]; simp⟩
    · obtain ⟨⟨members, r'⟩, hi, h⟩ := bind_eq_ok.mp h
      cases h
      obtain ⟨u, hu, hut⟩ := reads_of_scanMembers hscan hi
      exact ⟨_, .object hw hu, by rw [ht, hut]; simp⟩

/-- What the scanner has read, by its first character. -/
theorem scanOnce_cases {d c : ℕ} {t r : Str} {v : Value F} (h : scanOnce d (c :: t) = .ok (v, r)) :
    (c = quote ∧ ∃ s, scanString t = .ok (s, r) ∧ v = .str s) ∨
      (c = openBrace ∧ ∃ d', d = d' + 1 ∧ scanObject (scanOnce d') t.length t = .ok (v, r)) ∨
      (c = openBracket ∧ ∃ d', d = d' + 1 ∧ scanArray (scanOnce d') t.length t = .ok (v, r)) ∨
      scanScalar (c :: t) = .ok (v, r) := by
  by_cases hq : c = quote
  · subst hq
    rw [scanOnce_quote] at h
    obtain ⟨⟨s, t'⟩, hs, h⟩ := bind_eq_ok.mp h
    cases h
    exact .inl ⟨rfl, s, hs, rfl⟩
  by_cases hb : c = openBrace
  · subst hb
    cases d with
    | zero => cases h
    | succ d => exact .inr (.inl ⟨rfl, d, rfl, h⟩)
  by_cases hb' : c = openBracket
  · subst hb'
    cases d with
    | zero => cases h
    | succ d => exact .inr (.inr (.inl ⟨rfl, d, rfl, h⟩))
  · rw [scanOnce_scalar hq hb hb'] at h
    exact .inr (.inr (.inr h))

/-- What is read from the start of a text is the text of a value. -/
theorem sound_scanOnce (d : ℕ) : Sound d (scanOnce (F := F) d) := by
  induction d using Nat.strongRecOn with
  | _ d ih =>
    intro t v r h
    cases t with
    | nil => cases d <;> cases h
    | cons c t =>
      rcases scanOnce_cases h with ⟨rfl, s, hs, rfl⟩ | ⟨rfl, d', rfl, h⟩ | ⟨rfl, d', rfl, h⟩ | h
      · obtain ⟨u, pieces, hu, rfl, rfl⟩ := scanString_iff.mp hs
        exact ⟨_, .string hu, by simp⟩
      · obtain ⟨u, hu, rfl⟩ := reads_of_scanObject (ih d' (Nat.lt_succ_self d')) h
        exact ⟨_, hu, rfl⟩
      · obtain ⟨u, hu, rfl⟩ := reads_of_scanArray (ih d' (Nat.lt_succ_self d')) h
        exact ⟨_, hu, rfl⟩
      · obtain ⟨u, hu, hut⟩ := scalar_of_scanScalar h
        exact ⟨u, .scalar hu, hut⟩

/-! ### More levels -/

section Levels

variable {scan scan' : Str → Except ScanError (Value F × Str)}

/-- The second scanner does what the first one does where that does not run out of levels. -/
def Extends (scan scan' : Str → Except ScanError (Value F × Str)) : Prop :=
  ∀ t, scan t ≠ .error .recursion → scan' t = scan t

omit [PyFloat F] in
theorem Extends.items (h : Extends scan scan') {k : ℕ} {t : Str}
    (ht : scanItems scan k t ≠ .error .recursion) : scanItems scan' k t = scanItems scan k t := by
  induction k generalizing t with
  | zero => rfl
  | succ k ih =>
    rw [scanItems] at ht
    have hscan : scan' t = scan t := h t fun he => ht (by rw [he]; rfl)
    rw [scanItems, scanItems, hscan]
    cases hv : scan t with
    | error e => rfl
    | ok p =>
      obtain ⟨v, t'⟩ := p
      simp only [hv, bind, Except.bind] at ht ⊢
      split
      · rfl
      · next c t'' hc =>
        simp only [hc] at ht
        split
        · rfl
        · next hne =>
          rw [if_neg hne] at ht
          split
          · next hcomma =>
            rw [if_pos hcomma] at ht
            rw [ih fun he => ht (by rw [he])]
          · rfl

omit [PyFloat F] in
theorem Extends.members (h : Extends scan scan') {k : ℕ} {t : Str}
    (ht : scanMembers scan k t ≠ .error .recursion) :
    scanMembers scan' k t = scanMembers scan k t := by
  induction k generalizing t with
  | zero => rfl
  | succ k ih =>
    rw [scanMembers] at ht
    rw [scanMembers, scanMembers]
    simp only [bind, Except.bind] at ht ⊢
    cases hq : expect quote t with
    | error e => rfl
    | ok t₁ =>
      simp only [hq] at ht ⊢
      cases hs : scanString t₁ with
      | error e => rfl
      | ok p =>
        obtain ⟨name, t₂⟩ := p
        simp only [hs] at ht ⊢
        cases hc : expect colon (skipWs t₂) with
        | error e => rfl
        | ok t₃ =>
          simp only [hc] at ht ⊢
          rw [h (skipWs t₃) fun he => ht (by rw [he])]
          cases hv : scan (skipWs t₃) with
          | error e => rfl
          | ok p =>
            obtain ⟨v, t₄⟩ := p
            simp only [hv] at ht ⊢
            split
            · rfl
            · next c t₅ hd =>
              simp only [hd] at ht
              split
              · rfl
              · next hne =>
                rw [if_neg hne] at ht
                split
                · next hcomma =>
                  rw [if_pos hcomma] at ht
                  rw [ih fun he => ht (by rw [he])]
                · rfl

omit [PyFloat F] in
theorem Extends.array (h : Extends scan scan') {k : ℕ} {t : Str}
    (ht : scanArray scan k t ≠ .error .recursion) : scanArray scan' k t = scanArray scan k t := by
  rw [scanArray] at ht
  rw [scanArray, scanArray]
  split
  · rfl
  · next c t' hc =>
    simp only [hc] at ht
    split
    · rfl
    · next hne =>
      rw [if_neg hne] at ht
      rw [h.items fun he => ht (by rw [he]; rfl)]

omit [PyFloat F] in
theorem Extends.object (h : Extends scan scan') {k : ℕ} {t : Str}
    (ht : scanObject scan k t ≠ .error .recursion) : scanObject scan' k t = scanObject scan k t := by
  rw [scanObject] at ht
  rw [scanObject, scanObject]
  split
  · rfl
  · next c t' hc =>
    simp only [hc] at ht
    split
    · rfl
    · next hne =>
      rw [if_neg hne] at ht
      rw [h.members fun he => ht (by rw [he]; rfl)]

/-- With more levels the scanner does the same where it has not run out of them. -/
theorem extends_scanOnce {d d' : ℕ} (hle : d ≤ d') :
    Extends (scanOnce (F := F) d) (scanOnce d') := by
  induction d generalizing d' with
  | zero =>
    intro t ht
    cases t with
    | nil => cases d' <;> rfl
    | cons c t =>
      by_cases hq : c = quote
      · rw [hq, scanOnce_quote, scanOnce_quote]
      by_cases hb : c = openBrace
      · exact absurd (by rw [hb]; rfl) ht
      by_cases hb' : c = openBracket
      · exact absurd (by rw [hb']; rfl) ht
      · rw [scanOnce_scalar hq hb hb', scanOnce_scalar hq hb hb']
  | succ d ih =>
    obtain ⟨d', rfl⟩ := Nat.exists_eq_add_of_le' (Nat.le_of_add_left_le hle)
    have hd : Extends (scanOnce (F := F) d) (scanOnce d') := ih (Nat.le_of_succ_le_succ hle)
    intro t ht
    cases t with
    | nil => rfl
    | cons c t =>
      by_cases hq : c = quote
      · rw [hq, scanOnce_quote, scanOnce_quote]
      by_cases hb : c = openBrace
      · subst hb
        exact hd.object ht
      by_cases hb' : c = openBracket
      · subst hb'
        exact hd.array ht
      · rw [scanOnce_scalar hq hb hb', scanOnce_scalar hq hb hb']

end Levels

/-! ### Decoding -/

theorem rawDecode_of_reads {d : ℕ} {u : Str} {v : Value F} (h : Reads d u (.value v)) {r : Str}
    (hr : Ends r ∨ u.head? = some openBrace) : rawDecode d (u ++ r) = .ok (v, r) :=
  scans_of_reads h r hr

theorem reads_of_rawDecode {d : ℕ} {t r : Str} {v : Value F} (h : rawDecode d t = .ok (v, r)) :
    ∃ u, Reads d u (.value v) ∧ t = u ++ r :=
  sound_scanOnce d t v r h

/-- Where the decoder fails and has not run out of levels, it fails with any other number of
them. -/
theorem not_ok_of_decode {d d' : ℕ} {t : Str} (h : rawDecode (F := F) d t = .error .decode)
    (p : Value F × Str) : rawDecode d' t ≠ .ok p := by
  intro hp
  rcases Nat.le_total d d' with hle | hle
  · have hne : rawDecode (F := F) d t ≠ .error .recursion := by simp [h]
    have heq : rawDecode d' t = rawDecode d t := extends_scanOnce hle t hne
    cases (hp.symm.trans heq).trans h
  · have hne : rawDecode (F := F) d' t ≠ .error .recursion := by simp [hp]
    have heq : rawDecode d t = rawDecode d' t := extends_scanOnce hle t hne
    cases (hp.symm.trans heq.symm).trans h

/-- Two objects at the start of one text are the same. -/
theorem Reads.unique {d d' : ℕ} {u u' r r' : Str} {v v' : Value F} (h : Reads d u (.value v))
    (h' : Reads d' u' (.value v')) (hu : u.head? = some openBrace) (heq : u ++ r = u' ++ r') :
    u = u' ∧ v = v' := by
  have hu' : u'.head? = some openBrace := by
    obtain ⟨c, t, rfl, -⟩ := h.head
    obtain ⟨c', t', rfl, -⟩ := h'.head
    obtain ⟨rfl, -⟩ := List.cons_eq_cons.mp heq
    exact hu
  have hv := rawDecode_of_reads (h.mono (Nat.le_max_left d d')) (r := r) (.inr hu)
  rw [heq, rawDecode_of_reads (h'.mono (Nat.le_max_right d d')) (.inr hu')] at hv
  obtain ⟨rfl, rfl⟩ := Prod.mk.injEq .. ▸ Except.ok.inj hv
  exact ⟨List.append_cancel_right heq, rfl⟩

/-- What starts like an object is one. -/
theorem Reads.members_of_brace {d : ℕ} {t : Str} {v : Value F}
    (h : Reads d (openBrace :: t) (.value v)) : ∃ members, v = .obj members := by
  generalize hu : openBrace :: t = u at h
  cases h with
  | scalar h =>
    obtain ⟨c, t', rfl, -, hc, -⟩ := h.head
    exact absurd (List.cons_eq_cons.mp hu).1.symm hc
  | string | emptyArray | array => exact absurd (List.cons_eq_cons.mp hu).1 (by decide)
  | emptyObject => exact ⟨_, rfl⟩
  | object => exact ⟨_, rfl⟩

theorem skipWs_cons {c : ℕ} (hc : isWs c = false) (t : Str) : skipWs (c :: t) = c :: t :=
  skipWs_append blank_nil hc t

/-- A text that starts like an object is JSON when it is the text of an object and white
space. -/
theorem loads_brace_iff {d : ℕ} {t : Str} {v : Value F} : loads d (openBrace :: t) = .ok v ↔
    ∃ u w, Reads d u (.value v) ∧ Blank w ∧ openBrace :: t = u ++ w := by
  rw [loads, if_neg (by simp), bind_eq_ok, skipWs_cons (by decide)]
  constructor
  · rintro ⟨⟨v', w⟩, hv, h⟩
    obtain ⟨u, hu, ht⟩ := reads_of_rawDecode hv
    dsimp only at h
    split at h
    · next hw =>
      cases h
      refine ⟨u, w, hu, ?_, ht⟩
      obtain ⟨w', hw', heq⟩ := skipWs_split w
      rw [hw, List.append_nil] at heq
      exact heq ▸ hw'
    · cases h
  · rintro ⟨u, w, hu, hw, ht⟩
    obtain ⟨c, t', rfl, -⟩ := hu.head
    obtain ⟨rfl, -⟩ := List.cons_eq_cons.mp ht
    refine ⟨(v, w), ht ▸ rawDecode_of_reads hu (.inr rfl), ?_⟩
    have hw' : skipWs w = [] := List.dropWhile_eq_nil_iff.mpr hw
    simp only [hw', if_true]

/-! ### The nesting of a value -/

mutual

/-- How many arrays and objects stand one within the other. -/
def Value.depth : Value F → ℕ
  | .arr items => depthItems items + 1
  | .obj members => depthMembers members + 1
  | _ => 0

def depthItems : List (Value F) → ℕ
  | [] => 0
  | v :: items => max v.depth (depthItems items)

def depthMembers : List (Str × Value F) → ℕ
  | [] => 0
  | (_, v) :: members => max v.depth (depthMembers members)

end

omit [PyFloat F] in
theorem depthItems_le_iff {items : List (Value F)} {d : ℕ} :
    depthItems items ≤ d ↔ ∀ v ∈ items, v.depth ≤ d := by
  induction items with
  | nil => simp [depthItems]
  | cons v items ih => simp [depthItems, ih]

omit [PyFloat F] in
theorem depthMembers_le_iff {members : List (Str × Value F)} {d : ℕ} :
    depthMembers members ≤ d ↔ ∀ m ∈ members, m.2.depth ≤ d := by
  induction members with
  | nil => simp [depthMembers]
  | cons m members ih => simp [depthMembers, ih]

omit [PyFloat F] in
theorem mem_setItem {members : List (Str × Value F)} {m m' : Str × Value F}
    (h : m' ∈ setItem members m) : m' ∈ members ∨ m' = m := by
  rw [setItem] at h
  split at h
  · obtain ⟨m₀, hm₀, rfl⟩ := List.mem_map.mp h
    split
    · exact .inr rfl
    · exact .inl hm₀
  · simpa using h

omit [PyFloat F] in
theorem mem_of_mem_toDict {members : List (Str × Value F)} {m : Str × Value F}
    (h : m ∈ toDict members) : m ∈ members := by
  induction members using List.reverseRecOn with
  | nil => cases h
  | append_singleton members m₀ ih =>
    rw [toDict, List.foldl_append] at h
    rcases mem_setItem h with h | rfl
    · exact List.mem_append_left _ (ih h)
    · simp

def Phrase.depth : Phrase F → ℕ
  | .value v => v.depth
  | .items vs => depthItems vs
  | .members ms => depthMembers ms

/-- The text nests at least as deep as the value. -/
theorem Reads.depth_le {d : ℕ} {u : Str} {x : Phrase F} (h : Reads d u x) : x.depth ≤ d := by
  induction h with
  | @scalar d u v h =>
    cases h with
    | keyword h =>
      simp only [keywords, List.mem_cons, List.not_mem_nil, or_false, Prod.mk.injEq] at h
      rcases h with ⟨-, rfl⟩ | ⟨-, rfl⟩ | ⟨-, rfl⟩ | ⟨-, rfl⟩ | ⟨-, rfl⟩ | ⟨-, rfl⟩ <;>
        exact Nat.zero_le d
    | number _ _ _ hv =>
      simp only [ofNumber] at hv
      split_ifs at hv <;> cases hv <;> exact Nat.zero_le d
  | string => exact Nat.zero_le _
  | emptyArray | emptyObject => exact Nat.succ_le_succ (Nat.zero_le _)
  | array _ _ ih => exact Nat.succ_le_succ ih
  | object _ _ ih =>
    refine Nat.succ_le_succ (depthMembers_le_iff.mpr fun m hm => ?_)
    exact depthMembers_le_iff.mp ih m (mem_of_mem_toDict hm)
  | lastItem _ _ ih => exact Nat.max_le.mpr ⟨ih, Nat.zero_le _⟩
  | item _ _ _ _ ih iht => exact Nat.max_le.mpr ⟨ih, iht⟩
  | lastMember _ _ _ _ _ ih => exact Nat.max_le.mpr ⟨ih, Nat.zero_le _⟩
  | member _ _ _ _ _ _ _ ih iht => exact Nat.max_le.mpr ⟨ih, iht⟩

/-- With fewer levels than the value has, the decoder runs out of them. -/
theorem rawDecode_deep {d d' : ℕ} {u : Str} {v : Value F} (h : Reads d' u (.value v)) {r : Str}
    (hu : u.head? = some openBrace) (hd : d < v.depth) :
    rawDecode (F := F) d (u ++ r) = .error .recursion := by
  by_contra hne
  have hok := rawDecode_of_reads h (r := r) (.inr hu)
  have hle : d ≤ d' := (hd.trans_le h.depth_le).le
  have heq : rawDecode d (u ++ r) = .ok (v, r) := (extends_scanOnce hle _ hne).symm.trans hok
  obtain ⟨u', hu', -⟩ := reads_of_rawDecode heq
  exact absurd hu'.depth_le (Nat.not_le.mpr hd)

end Phrases

end LiberNovus.Json

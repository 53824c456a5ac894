import LiberNovus.Prompts.Validation

/-! The texts that `int` reads.

Proved: they are the digits with single underscores between them, after a sign and with white
space around, that are not too many. -/

namespace LiberNovus.Prompts

open Text Results

/-- The text is `n` digits with single underscores between them. -/
inductive DigitText : List Char → ℕ → Prop
  | one {c : Char} (hc : (decimalValue c).isSome = true) : DigitText [c] 1
  | digit {c : Char} {t : List Char} {n : ℕ} (hc : (decimalValue c).isSome = true)
      (ht : DigitText t n) : DigitText (c :: t) (n + 1)
  | underscore {c : Char} {t : List Char} {n : ℕ} (hc : (decimalValue c).isSome = true)
      (ht : DigitText t n) : DigitText (c :: '_' :: t) (n + 1)

/-- The text is an integer, of no more digits than `int` takes. -/
def IsInteger (t : List Char) : Prop :=
  ∃ before sign digits after n, t = before ++ (sign ++ digits ++ after) ∧
    (∀ c ∈ before, isNumberSpace c = true) ∧ sign ∈ [[], ['-'], ['+']] ∧ DigitText digits n ∧
    n ≤ maxStrDigits ∧ ∀ c ∈ after, isNumberSpace c = true

/-! ### Digits -/

section Digits

variable {t : List Char} {n : ℕ}

theorem DigitText.head (h : DigitText t n) :
    ∃ c rest, t = c :: rest ∧ (decimalValue c).isSome = true := by
  cases h with
  | one hc => exact ⟨_, _, rfl, hc⟩
  | digit hc _ => exact ⟨_, _, rfl, hc⟩
  | underscore hc _ => exact ⟨_, _, rfl, hc⟩

theorem DigitText.last (h : DigitText t n) :
    ∃ c, t.getLast? = some c ∧ (decimalValue c).isSome = true := by
  induction h with
  | one hc => exact ⟨_, rfl, hc⟩
  | digit hc ht ih =>
    obtain ⟨c, rest, rfl, -⟩ := ht.head
    simpa using ih
  | underscore hc ht ih =>
    obtain ⟨c, rest, rfl, -⟩ := ht.head
    simpa using ih

theorem ne_underscore {c : Char} (h : (decimalValue c).isSome = true) : c ≠ '_' := by
  rintro rfl
  exact absurd h (by decide)

theorem digitText_iff : DigitText t n ↔ ∃ ds, scanDigits t = some ds ∧ ds.length = n := by
  constructor
  · intro h
    induction h with
    | one hc =>
      obtain ⟨d, hd⟩ := Option.isSome_iff_exists.mp hc
      exact ⟨[d], by rw [scanDigits, hd]; rfl, rfl⟩
    | digit hc ht ih =>
      obtain ⟨d, hd⟩ := Option.isSome_iff_exists.mp hc
      obtain ⟨ds, hds, rfl⟩ := ih
      obtain ⟨c', rest, rfl, hc'⟩ := ht.head
      refine ⟨d :: ds, ?_, rfl⟩
      simp only [scanDigits, hd, if_neg (ne_underscore hc'), hds]
      rfl
    | underscore hc ht ih =>
      obtain ⟨d, hd⟩ := Option.isSome_iff_exists.mp hc
      obtain ⟨ds, hds, rfl⟩ := ih
      refine ⟨d :: ds, ?_, rfl⟩
      simp only [scanDigits, hd, if_true, hds]
      rfl
  · rintro ⟨ds, hds, rfl⟩
    induction t using scanDigits.induct generalizing ds with
    | case1 => cases hds
    | case2 c =>
      obtain ⟨d, hd, rfl⟩ := Option.map_eq_some_iff.mp hds
      exact .one (Option.isSome_of_eq_some hd)
    | case3 c c' t ih ih' =>
      obtain ⟨d, hd, hds⟩ := Option.bind_eq_some_iff.mp (scanDigits.eq_3 c c' t ▸ hds)
      have hc : (decimalValue c).isSome = true := Option.isSome_of_eq_some hd
      by_cases hc' : c' = '_'
      · rw [if_pos hc'] at hds
        obtain ⟨rest, hrest, hds⟩ := Option.bind_eq_some_iff.mp hds
        cases hds
        exact hc' ▸ .underscore hc (ih rest hrest)
      · rw [if_neg hc'] at hds
        obtain ⟨rest, hrest, hds⟩ := Option.bind_eq_some_iff.mp hds
        cases hds
        exact .digit hc (ih' rest hrest)

/-- Digits are not white space. -/
theorem isNumberSpace_of_digit {c : Char} (h : (decimalValue c).isSome = true) :
    isNumberSpace c = false := by
  have hall : ∀ z ∈ decimalZeros, ∀ d < 10, isSpace (Char.ofNat (z + d)) = false := by decide
  rw [decimalValue, Option.isSome_map, List.find?_isSome] at h
  obtain ⟨z, hz, hc⟩ := h
  simp only [decide_eq_true_eq] at hc
  have hspace := hall z hz (c.toNat - z) (by omega)
  rw [Nat.add_sub_cancel' hc.1, Char.ofNat_toNat] at hspace
  rw [isNumberSpace, hspace]
  rfl

end Digits

/-! ### Integers -/

section Integers

variable {t : List Char}

theorem intOfDigits_isOk_iff :
    (∃ n, intOfDigits t = .ok n) ↔ ∃ n, DigitText t n ∧ n ≤ maxStrDigits := by
  simp only [digitText_iff]
  unfold intOfDigits
  cases hds : scanDigits t with
  | none => simp
  | some ds =>
    by_cases hlen : maxStrDigits < ds.length
    · simp [hlen]
    · simp [hlen, Nat.le_of_not_lt hlen]

/-- `int` reads the text. -/
theorem pyInt_isOk_iff : (∃ n, pyInt t = .ok n) ↔ IsInteger t := by
  have hmap : ∀ {s : List Char} {f : ℤ → ℤ},
      (∃ n, Except.map f (do let m ← intOfDigits s; pure (m : ℤ)) = .ok n) ↔
        ∃ n, intOfDigits s = .ok n := by
    intro s f
    cases intOfDigits s <;> simp [Except.map, bind, Except.bind, pure, Except.pure]
  constructor
  · rintro ⟨n, h⟩
    have hsplit : t = t.takeWhile isNumberSpace ++ ((t.dropWhile isNumberSpace).rdropWhile
        isNumberSpace ++ (t.dropWhile isNumberSpace).rtakeWhile isNumberSpace) := by
      rw [List.rdropWhile_append_rtakeWhile, List.takeWhile_append_dropWhile]
    have hbefore : ∀ c ∈ t.takeWhile isNumberSpace, isNumberSpace c = true := fun c hc =>
      List.mem_takeWhile_imp hc
    have hafter : ∀ c ∈ (t.dropWhile isNumberSpace).rtakeWhile isNumberSpace,
        isNumberSpace c = true := fun c hc => List.mem_rtakeWhile_imp hc
    unfold pyInt at h
    split at h
    · cases h
    · next c s hs =>
      rw [hs] at hsplit
      split at h
      · next hminus =>
        obtain ⟨m, hdigits, hm⟩ := intOfDigits_isOk_iff.mp (hmap.mp ⟨n, h⟩)
        exact ⟨_, ['-'], s, _, m, by rw [hminus] at hsplit; simpa using hsplit, hbefore, by simp,
          hdigits, hm, hafter⟩
      · split at h
        · next hplus =>
          obtain ⟨m, hdigits, hm⟩ := intOfDigits_isOk_iff.mp (hmap.mp ⟨n, h⟩)
          exact ⟨_, ['+'], s, _, m, by rw [hplus] at hsplit; simpa using hsplit, hbefore, by simp,
            hdigits, hm, hafter⟩
        · obtain ⟨m, hdigits, hm⟩ := intOfDigits_isOk_iff.mp (hmap.mp ⟨n, h⟩)
          exact ⟨_, [], c :: s, _, m, by simpa using hsplit, hbefore, by simp, hdigits, hm, hafter⟩
  · rintro ⟨before, sign, digits, after, m, rfl, hbefore, hsign, hdigits, hm, hafter⟩
    obtain ⟨c, rest, rfl, hc⟩ := hdigits.head
    have hvalue := intOfDigits_isOk_iff.mpr ⟨m, hdigits, hm⟩
    have htrim : ∀ d s, sign ++ c :: rest = d :: s → isNumberSpace d = false →
        ((before ++ (sign ++ c :: rest ++ after)).dropWhile isNumberSpace).rdropWhile
          isNumberSpace = d :: s := by
      intro d s hds hd
      rw [trim_append hbefore hafter ?_ ?_ (by rw [hds]; simp), hds]
      · rw [hds]
        simpa using hd
      · obtain ⟨e, he, hspace⟩ := hdigits.last
        rw [List.getLast?_append_of_ne_nil _ (by simp), he]
        simpa using isNumberSpace_of_digit hspace
    have hminus : c ≠ '-' := by
      rintro rfl
      exact absurd hc (by decide)
    have hplus : c ≠ '+' := by
      rintro rfl
      exact absurd hc (by decide)
    simp only [List.mem_cons, List.not_mem_nil, or_false] at hsign
    rcases hsign with rfl | rfl | rfl
    · rw [pyInt, htrim c rest rfl (isNumberSpace_of_digit hc)]
      simpa only [if_neg hminus, if_neg hplus] using hmap.mpr hvalue
    · rw [pyInt, htrim '-' (c :: rest) rfl (by decide)]
      exact hmap.mpr hvalue
    · rw [pyInt, htrim '+' (c :: rest) rfl (by decide)]
      exact hmap.mpr hvalue

end Integers

end LiberNovus.Prompts

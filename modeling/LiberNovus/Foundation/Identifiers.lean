import Mathlib.Data.List.Basic
import Mathlib.Data.Nat.Notation

/-! Texts for numbers: the canonical text of a 128-bit identifier, which is its hexadecimal digits
in groups of 8, 4, 4, 4 and 12, and texts whose parts are separated by colons.

Proved: different numbers have different texts, the digits have no colon among them, and a text
of two parts is split at its first colon. -/

namespace LiberNovus.Identifiers

/-- `'%032x' % n`. -/
def hexDigits (n : ℕ) : List Char := (Nat.toDigits 16 n).leftpad 32 '0'

/-- `str(uuid)`. -/
def uuidText (n : ℕ) : String :=
  let digits := hexDigits n
  String.ofList (digits.take 8 ++ '-' :: (digits.drop 8).take 4 ++ '-' :: (digits.drop 12).take 4 ++
    '-' :: (digits.drop 16).take 4 ++ '-' :: digits.drop 20)

/-! ### Digits -/

theorem mem_toDigits {n : ℕ} {c : Char} (hc : c ∈ Nat.toDigits 16 n) :
    ∃ d < 16, c = Nat.digitChar d := by
  induction n using Nat.strongRecOn with
  | ind n ih =>
    rw [Nat.toDigits_eq_if (by decide)] at hc
    split at hc
    · next hn => exact ⟨n, hn, List.mem_singleton.mp hc⟩
    · rcases List.mem_append.mp hc with hc | hc
      · exact ih (n / 16) (by omega) hc
      · exact ⟨n % 16, Nat.mod_lt n (by decide), List.mem_singleton.mp hc⟩

/-- No digit is a sign of punctuation. -/
theorem not_mem_hexDigits {n : ℕ} {c : Char} (hc : ∀ d < 16, c ≠ Nat.digitChar d) :
    c ∉ hexDigits n := by
  intro hm
  rcases List.mem_append.mp hm with hm | hm
  · exact hc 0 (by decide) (List.eq_of_mem_replicate hm)
  · obtain ⟨d, hd, he⟩ := mem_toDigits hm
    exact hc d hd he

/-- The number that digits stand for. -/
def hexValue (digits : List Char) : ℕ :=
  digits.foldl (fun n c => 16 * n + "0123456789abcdef".toList.idxOf c) 0

theorem hexValue_append_digit (digits : List Char) {d : ℕ} (hd : d < 16) :
    hexValue (digits ++ [Nat.digitChar d]) = 16 * hexValue digits + d := by
  have hdigit : "0123456789abcdef".toList.idxOf (Nat.digitChar d) = d := by
    revert d
    decide
  rw [hexValue, List.foldl_append, List.foldl_cons, List.foldl_nil, hdigit, hexValue]

theorem hexValue_pad (k n : ℕ) : hexValue (List.replicate k '0' ++ Nat.toDigits 16 n) = n := by
  induction n using Nat.strongRecOn with
  | ind n ih =>
    rw [Nat.toDigits_eq_if (by decide)]
    split
    · next hn =>
      have hzero : ∀ k, hexValue (List.replicate k '0') = 0 := by
        intro k
        induction k with
        | zero => rfl
        | succ k ihk =>
          rw [List.replicate_succ']
          have := hexValue_append_digit (List.replicate k '0') (d := 0) (by decide)
          rwa [ihk] at this
      rw [hexValue_append_digit _ hn, hzero]
      omega
    · rw [← List.append_assoc, hexValue_append_digit _ (Nat.mod_lt n (by decide)),
        ih (n / 16) (by omega)]
      omega

theorem hexDigits_injective {n m : ℕ} (h : hexDigits n = hexDigits m) : n = m := by
  have hvalue := congrArg hexValue h
  rwa [hexDigits, hexDigits, List.leftpad, List.leftpad, hexValue_pad, hexValue_pad] at hvalue

/-! ### Texts -/

theorem toList_uuidText (n : ℕ) : (uuidText n).toList =
    (hexDigits n).take 8 ++ '-' :: ((hexDigits n).drop 8).take 4 ++
      '-' :: ((hexDigits n).drop 12).take 4 ++ '-' :: ((hexDigits n).drop 16).take 4 ++
        '-' :: (hexDigits n).drop 20 := String.toList_ofList

/-- Without its dashes the text is the digits. -/
theorem filter_uuidText (n : ℕ) : (uuidText n).toList.filter (· ≠ '-') = hexDigits n := by
  have hdash : ∀ c ∈ hexDigits n, c ≠ '-' := by
    rintro c hc rfl
    exact not_mem_hexDigits (by decide) hc
  have hpart : ∀ l : List Char, l ⊆ hexDigits n → l.filter (· ≠ '-') = l := fun l hl =>
    List.filter_eq_self.mpr fun c hc => decide_eq_true (hdash c (hl hc))
  have htake : ∀ i j, ((hexDigits n).drop i).take j ⊆ hexDigits n := fun i j =>
    ((List.take_sublist j _).trans (List.drop_sublist i _)).subset
  have hparts : ∀ i j, ((hexDigits n).drop i).take j ++ (hexDigits n).drop (i + j) =
      (hexDigits n).drop i := fun i j => by
    rw [← List.drop_drop, List.take_append_drop]
  rw [toList_uuidText]
  simp only [List.filter_append, List.filter_cons_of_neg (a := '-') (p := (· ≠ '-')) (by decide)]
  rw [hpart _ (List.take_subset 8 _), hpart _ (htake 8 4), hpart _ (htake 12 4), hpart _ (htake 16 4),
    hpart _ (List.drop_subset 20 _)]
  simp only [List.append_assoc]
  rw [hparts 16 4, hparts 12 4, hparts 8 4, List.take_append_drop]

theorem uuidText_injective {n m : ℕ} (h : uuidText n = uuidText m) : n = m := by
  refine hexDigits_injective ?_
  rw [← filter_uuidText, ← filter_uuidText, h]

theorem colon_not_mem_uuidText (n : ℕ) : ':' ∉ (uuidText n).toList := by
  have hdigits : ':' ∉ hexDigits n := not_mem_hexDigits (by decide)
  intro hm
  have hfilter : ':' ∈ (uuidText n).toList.filter (· ≠ '-') := List.mem_filter.mpr ⟨hm, by decide⟩
  rw [filter_uuidText] at hfilter
  exact hdigits hfilter

/-- A text is split at its first colon. -/
theorem split_colon {a a' b b' : String} (ha : ':' ∉ a.toList) (ha' : ':' ∉ a'.toList)
    (h : a ++ ":" ++ b = a' ++ ":" ++ b') : a = a' ∧ b = b' := by
  have hlist := congrArg String.toList h
  simp only [String.toList_append, List.append_assoc] at hlist
  have hfirst : ∀ {a b : List Char}, ':' ∉ a → (a ++ (":".toList ++ b)).takeWhile (· ≠ ':') = a := by
    intro a b ha
    have hall : ∀ c ∈ a, decide (c ≠ ':') = true := by
      rintro c hc
      exact decide_eq_true fun he => ha (he ▸ hc)
    rw [List.takeWhile_append_of_pos hall]
    exact List.append_nil a
  have he : a.toList = a'.toList := by
    rw [← hfirst ha (b := b.toList), hlist, hfirst ha']
  rw [he] at hlist
  exact ⟨String.toList_inj.mp he, String.toList_inj.mp
    (List.append_cancel_left (List.append_cancel_left hlist))⟩

end LiberNovus.Identifiers

import LiberNovus.Foundation.Json.Scanner

/-! UTF-8, and `urllib.parse.unquote`. A text is encoded strictly, so that a lone surrogate is
refused; the bytes of percent escapes are decoded with a replacement character for every maximal
part of a sequence that is not completed.

Proved: an encoded text is decoded to itself, hence no two texts are encoded alike. -/

namespace LiberNovus.Unquote

open Json

/-! ### UTF-8 -/

/-- A code point that is no surrogate. -/
def Scalar (c : ℕ) : Prop := c < 0xd800 ∨ 0xdfff < c ∧ c < 0x110000

instance : DecidablePred Scalar := fun _ => inferInstanceAs (Decidable (_ ∨ _))

def encodeChar (c : ℕ) : List ℕ :=
  if c < 0x80 then [c]
  else if c < 0x800 then [0xc0 + c / 0x40, 0x80 + c % 0x40]
  else if c < 0x10000 then [0xe0 + c / 0x1000, 0x80 + c / 0x40 % 0x40, 0x80 + c % 0x40]
  else [0xf0 + c / 0x40000, 0x80 + c / 0x1000 % 0x40, 0x80 + c / 0x40 % 0x40, 0x80 + c % 0x40]

/-- `str.encode()`, or its `UnicodeEncodeError`. -/
def encode (s : Str) : Option (List ℕ) :=
  if ∀ c ∈ s, Scalar c then some (s.flatMap encodeChar) else none

/-- A sequence that has begun: the bits so far, how many bytes are missing, and the range of the
next one. -/
structure Pending where
  value : ℕ
  need : ℕ
  low : ℕ
  high : ℕ
  deriving DecidableEq, Repr

/-- The first byte of a sequence. -/
def lead (b : ℕ) : Option Pending :=
  if 0xc2 ≤ b ∧ b ≤ 0xdf then some ⟨b - 0xc0, 1, 0x80, 0xbf⟩
  else if b = 0xe0 then some ⟨0, 2, 0xa0, 0xbf⟩
  else if b = 0xed then some ⟨0xd, 2, 0x80, 0x9f⟩
  else if 0xe1 ≤ b ∧ b ≤ 0xef then some ⟨b - 0xe0, 2, 0x80, 0xbf⟩
  else if b = 0xf0 then some ⟨0, 3, 0x90, 0xbf⟩
  else if b = 0xf4 then some ⟨4, 3, 0x80, 0x8f⟩
  else if 0xf1 ≤ b ∧ b ≤ 0xf3 then some ⟨b - 0xf0, 3, 0x80, 0xbf⟩
  else none

abbrev replacement : ℕ := 0xfffd

/-- A byte outside of a sequence. -/
def first (b : ℕ) : Str × Option Pending :=
  if b < 0x80 then ([b], none)
  else
    match lead b with
    | some p => ([], some p)
    | none => ([replacement], none)

/-- A byte that continues a sequence. -/
def Pending.next (p : Pending) (b : ℕ) : Option (Str × Option Pending) :=
  if p.low ≤ b ∧ b ≤ p.high then
    let value := p.value * 0x40 + (b - 0x80)
    some (if p.need = 1 then ([value], none) else ([], some ⟨value, p.need - 1, 0x80, 0xbf⟩))
  else none

/-- `bytes.decode("utf-8", "replace")`, inside or outside of a sequence. -/
def decodeFrom : Option Pending → List ℕ → Str
  | none, [] => []
  | some _, [] => [replacement]
  | none, b :: bs => (first b).1 ++ decodeFrom (first b).2 bs
  | some p, b :: bs =>
    match p.next b with
    | some (s, p) => s ++ decodeFrom p bs
    | none => replacement :: ((first b).1 ++ decodeFrom (first b).2 bs)

def decode (bs : List ℕ) : Str := decodeFrom none bs

/-! ### Percent escapes -/

/-- `unquote_to_bytes`: a percent sign without two hexadecimal digits stands for itself. -/
def unquoteToBytes : Str → List ℕ
  | [] => []
  | c :: t =>
    if c = 0x25 then
      match t with
      | a :: b :: rest =>
        match hexDigit a, hexDigit b with
        | some x, some y => (0x10 * x + y) :: unquoteToBytes rest
        | _, _ => c :: unquoteToBytes (a :: b :: rest)
      | [a] => c :: unquoteToBytes [a]
      | [] => [c]
    else c :: unquoteToBytes t

def isAscii (c : ℕ) : Bool := c < 0x80

/-- `unquote`: the runs of ASCII characters are decoded, each for itself. -/
def unquote (s : Str) : Str :=
  if 0x25 ∈ s then
    (s.splitBy fun a b => isAscii a == isAscii b).flatMap fun run =>
      if run.all isAscii then decode (unquoteToBytes run) else run
  else s

example : unquote [0x25, 0x64, 0x31, 0x25, 0x38, 0x31, 0x25, 0x7a, 0x430, 0x25] =
    [0x441, 0x25, 0x7a, 0x430, 0x25] := by decide

/-! ### What is encoded -/

theorem lead_two {q : ℕ} (hq : 2 ≤ q) (hq' : q < 0x20) :
    lead (0xc0 + q) = some ⟨q, 1, 0x80, 0xbf⟩ := by
  rw [lead, if_pos (by omega), Nat.add_sub_cancel_left]

/-- The range of the second byte leaves out the short codes and the surrogates. -/
theorem lead_three {q r : ℕ} (hq : q < 0x10) (hr : r < 0x40) (hshort : q = 0 → 0x20 ≤ r)
    (hsurrogate : q = 0xd → r < 0x20) :
    ∃ low high, lead (0xe0 + q) = some ⟨q, 2, low, high⟩ ∧ low ≤ 0x80 + r ∧ 0x80 + r ≤ high := by
  rw [lead, if_neg (by omega)]
  by_cases h0 : q = 0
  · exact ⟨_, _, by rw [h0, if_pos rfl], by omega, by omega⟩
  rw [if_neg (by omega)]
  by_cases hd : q = 0xd
  · exact ⟨_, _, by rw [hd, if_pos rfl], by omega, by omega⟩
  rw [if_neg (by omega), if_pos (by omega), Nat.add_sub_cancel_left]
  exact ⟨_, _, rfl, by omega, by omega⟩

/-- The range of the second byte leaves out the short codes and what is no code point. -/
theorem lead_four {q r : ℕ} (hq : q < 5) (hr : r < 0x40) (hshort : q = 0 → 0x10 ≤ r)
    (hlarge : q = 4 → r < 0x10) :
    ∃ low high, lead (0xf0 + q) = some ⟨q, 3, low, high⟩ ∧ low ≤ 0x80 + r ∧ 0x80 + r ≤ high := by
  rw [lead, if_neg (by omega), if_neg (by omega), if_neg (by omega), if_neg (by omega)]
  by_cases h0 : q = 0
  · exact ⟨_, _, by rw [h0, if_pos rfl], by omega, by omega⟩
  rw [if_neg (by omega)]
  by_cases h4 : q = 4
  · exact ⟨_, _, by rw [h4, if_pos rfl], by omega, by omega⟩
  rw [if_neg (by omega), if_pos (by omega), Nat.add_sub_cancel_left]
  exact ⟨_, _, rfl, by omega, by omega⟩

section Decode

variable (bs : List ℕ)

theorem decodeFrom_lead {b : ℕ} {p : Pending} (hb : 0x80 ≤ b) (h : lead b = some p) :
    decodeFrom none (b :: bs) = decodeFrom (some p) bs := by
  rw [decodeFrom, first, if_neg (by omega), h]
  rfl

/-- A byte in the middle of a sequence, -/
theorem decodeFrom_next {value need low high r : ℕ} (hlow : low ≤ 0x80 + r) (hhigh : 0x80 + r ≤ high)
    (hneed : 1 < need) :
    decodeFrom (some ⟨value, need, low, high⟩) ((0x80 + r) :: bs) =
      decodeFrom (some ⟨value * 0x40 + r, need - 1, 0x80, 0xbf⟩) bs := by
  simp only [decodeFrom, Pending.next]
  rw [if_pos ⟨hlow, hhigh⟩, if_neg (by omega), Nat.add_sub_cancel_left]
  rfl

/-- and the last one. -/
theorem decodeFrom_last {value low high r : ℕ} (hlow : low ≤ 0x80 + r) (hhigh : 0x80 + r ≤ high) :
    decodeFrom (some ⟨value, 1, low, high⟩) ((0x80 + r) :: bs) =
      (value * 0x40 + r) :: decodeFrom none bs := by
  simp only [decodeFrom, Pending.next]
  rw [if_pos ⟨hlow, hhigh⟩, if_pos trivial, Nat.add_sub_cancel_left]
  rfl

theorem decode_encodeChar {c : ℕ} (hc : Scalar c) :
    decodeFrom none (encodeChar c ++ bs) = c :: decodeFrom none bs := by
  unfold Scalar at hc
  rw [encodeChar]
  split_ifs with h1 h2 h3
  · rw [List.singleton_append, decodeFrom, first, if_pos h1]
    rfl
  · rw [List.cons_append, List.singleton_append,
      decodeFrom_lead _ (by omega) (lead_two (by omega) (by omega)),
      decodeFrom_last _ (by omega) (by omega)]
    congr 1
    omega
  · obtain ⟨low, high, hlead, hlow, hhigh⟩ :=
      lead_three (q := c / 0x1000) (r := c / 0x40 % 0x40) (by omega) (by omega) (by omega) (by omega)
    simp only [List.cons_append, List.nil_append]
    rw [decodeFrom_lead _ (by omega) hlead, decodeFrom_next _ hlow hhigh (by omega),
      decodeFrom_last _ (by omega) (by omega)]
    congr 1
    omega
  · obtain ⟨low, high, hlead, hlow, hhigh⟩ :=
      lead_four (q := c / 0x40000) (r := c / 0x1000 % 0x40) (by omega) (by omega) (by omega) (by omega)
    simp only [List.cons_append, List.nil_append]
    rw [decodeFrom_lead _ (by omega) hlead, decodeFrom_next _ hlow hhigh (by omega),
      decodeFrom_next _ (by omega) (by omega) (by omega), decodeFrom_last _ (by omega) (by omega)]
    congr 1
    omega

end Decode

theorem decode_encode {s : Str} {bs : List ℕ} (h : encode s = some bs) : decode bs = s := by
  obtain ⟨hs, rfl⟩ : (∀ c ∈ s, Scalar c) ∧ s.flatMap encodeChar = bs := by
    simpa only [encode, Option.ite_none_right_eq_some, Option.some.injEq] using h
  clear h
  induction s with
  | nil => rfl
  | cons c s ih =>
    rw [decode, List.flatMap_cons, decode_encodeChar _ (hs c List.mem_cons_self)]
    exact congrArg (c :: ·) (ih fun d hd => hs d (List.mem_cons_of_mem c hd))

/-- No two texts are encoded alike. -/
theorem encode_injective {s s' : Str} {bs : List ℕ} (h : encode s = some bs)
    (h' : encode s' = some bs) : s = s' := (decode_encode h).symm.trans (decode_encode h')

theorem encode_isSome_iff {s : Str} : (encode s).isSome = true ↔ ∀ c ∈ s, Scalar c := by
  rw [encode, Option.isSome_ite]

end LiberNovus.Unquote

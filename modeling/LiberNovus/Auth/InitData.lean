import Mathlib.Data.List.Lex
import Mathlib.Data.List.Sort
import Mathlib.Data.List.TakeWhile
import LiberNovus.Foundation.Json.Fields
import LiberNovus.Foundation.Unquote

/-! The signature of the Mini App data. `validate_mini_app_data` takes a query string apart,
unquotes the values, and compares the `hash` with the signature of the other entries, sorted and
written one on a line.

Proved: a signature stands for one text of lines. It stands for one dictionary among those
without a line feed in a key or an unquoted value, and not among the others. -/

namespace LiberNovus.Auth

open Json Unquote

inductive Raised where
  | http (statusCode : ℕ) (detail : String)
  | attributeError
  | valueError
  | keyError
  | unicodeEncodeError
  | validationError
  | recursionError
  deriving DecidableEq, Repr

abbrev ampersand : ℕ := 0x26
abbrev equals : ℕ := 0x3d
abbrev lineFeed : ℕ := 0x0a

def hashKey : Str := [0x68, 0x61, 0x73, 0x68]

/-- A `dict` of strings, in the order of insertion. -/
abbrev Dict := List (Str × Str)

/-! ### The function -/

/-- `d[k] = v`. -/
def Dict.set (d : Dict) (entry : Str × Str) : Dict :=
  if entry.1 ∈ d.map Prod.fst then d.map fun e => if e.1 = entry.1 then entry else e
  else d ++ [entry]

/-- The two parts of `s.split("=", 1)`. -/
def splitPair (s : Str) : Str × Str :=
  (s.takeWhile (· ≠ equals), (s.dropWhile (· ≠ equals)).tail)

/-- `k: unquote(v)`, for a pair of the comprehension. -/
def Dict.add (vals : Dict) (entry : Str × Str) : Dict := vals.set (entry.1, unquote entry.2)

/-- The dictionary of the query string; a part without `=` cannot be unpacked. -/
def parse (data : Str) : Option Dict :=
  if ∀ s ∈ data.splitOn ampersand, equals ∈ s then
    some (((data.splitOn ampersand).map splitPair).foldl Dict.add [])
  else none

/-- The order of `sorted(vals.items())`. -/
def ItemLe (a b : Str × Str) : Prop := a.1 < b.1 ∨ a.1 = b.1 ∧ a.2 ≤ b.2

instance : DecidableRel ItemLe := fun _ _ => inferInstanceAs (Decidable (_ ∨ _))

def line (entry : Str × Str) : Str := entry.1 ++ equals :: entry.2

def signed (vals : Dict) : List (Str × Str) :=
  (vals.insertionSort ItemLe).filter fun entry => entry.1 ≠ hashKey

def dataCheckString (vals : Dict) : Str := [lineFeed].intercalate ((signed vals).map line)

/-- `validate_mini_app_data`; `hexdigest` is HMAC-SHA256 under the key of the bot. -/
def validateMiniAppData (hexdigest : List ℕ → Str) (data : Str) : Except Raised (Bool × Dict) :=
  match parse data with
  | none => .error .valueError
  | some vals =>
    match encode (dataCheckString vals) with
    | none => .error .unicodeEncodeError
    | some message =>
      match vals.lookup hashKey with
      | none => .error .keyError
      | some hash => .ok (hexdigest message = hash, vals)

variable {data data' : Str} {vals vals' : Dict}

/-! ### The dictionary -/

/-- A dictionary has a key once, and no key holds the sign that ends it. -/
structure Dict.Wf (d : Dict) : Prop where
  nodup : (d.map Prod.fst).Nodup
  keys : ∀ entry ∈ d, equals ∉ entry.1

theorem Dict.Wf.set {d : Dict} (hd : d.Wf) {entry : Str × Str} (he : equals ∉ entry.1) :
    (d.set entry).Wf := by
  rw [Dict.set]
  split
  · next hmem =>
    have hkey (e : Str × Str) : (if e.1 = entry.1 then entry else e).1 = e.1 := by
      split
      · next h => exact h.symm
      · rfl
    constructor
    · rw [List.map_map, Function.comp_def]
      simp only [hkey]
      exact hd.nodup
    · intro e' he'
      obtain ⟨e, hmem', rfl⟩ := List.mem_map.mp he'
      rw [hkey]
      exact hd.keys e hmem'
  · next hmem =>
    constructor
    · rw [List.map_append, List.map_singleton, List.nodup_append]
      refine ⟨hd.nodup, List.nodup_singleton _, ?_⟩
      rintro k hk k' hk' rfl
      exact hmem (List.mem_singleton.mp hk' ▸ hk)
    · intro e he'
      rcases List.mem_append.mp he' with he' | he'
      · exact hd.keys e he'
      · exact List.mem_singleton.mp he' ▸ he

theorem wf_of_parse (h : parse data = some vals) : vals.Wf := by
  obtain ⟨-, rfl⟩ : _ ∧ _ = vals := by
    simpa only [parse, Option.ite_none_right_eq_some, Option.some.injEq] using h
  generalize (data.splitOn ampersand) = parts
  suffices hfold : ∀ d : Dict, d.Wf → Dict.Wf ((parts.map splitPair).foldl Dict.add d) from
    hfold [] ⟨List.nodup_nil, by simp⟩
  induction parts with
  | nil => exact fun d hd => hd
  | cons s parts ih =>
    intro d hd
    refine ih _ (hd.set fun hmem => ?_)
    simpa using List.mem_takeWhile_imp hmem

/-! ### The signed text -/

theorem equals_mem_line (entry : Str × Str) : equals ∈ line entry :=
  List.mem_append_right _ List.mem_cons_self

/-- A key ends at the first sign, so that a line is taken apart again. -/
theorem splitPair_line {entry : Str × Str} (h : equals ∉ entry.1) : splitPair (line entry) = entry := by
  have hkey : ∀ c ∈ entry.1, decide (c ≠ equals) = true := fun c hc => by
    simpa using ne_of_mem_of_not_mem hc h
  rw [splitPair, line, List.takeWhile_append_of_pos hkey, List.dropWhile_append_of_pos hkey,
    List.takeWhile_cons_of_neg (by simp), List.dropWhile_cons_of_neg (by simp), List.append_nil]
  rfl

theorem mem_signed {entry : Str × Str} : entry ∈ signed vals ↔ entry ∈ vals ∧ entry.1 ≠ hashKey := by
  simp [signed]

/-- No key or unquoted value but that of the hash holds a line feed. -/
def LineFree (vals : Dict) : Prop :=
  ∀ entry ∈ vals, entry.1 ≠ hashKey → lineFeed ∉ entry.1 ∧ lineFeed ∉ entry.2

/-- The lines of a text without other line feeds. -/
theorem splitOn_dataCheckString (h : LineFree vals) (hne : signed vals ≠ []) :
    (dataCheckString vals).splitOn lineFeed = (signed vals).map line := by
  refine List.splitOn_intercalate lineFeed ?_ (by simpa using hne)
  intro l hl
  obtain ⟨entry, hentry, rfl⟩ := List.mem_map.mp hl
  obtain ⟨hmem, hkey⟩ := mem_signed.mp hentry
  obtain ⟨hk, hv⟩ := h entry hmem hkey
  simp [line, hk, hv]

theorem dataCheckString_eq_nil : dataCheckString vals = [] ↔ signed vals = [] := by
  rw [dataCheckString]
  cases signed vals with
  | nil => simp
  | cons entry entries =>
    have hne : line entry ≠ [] := List.ne_nil_of_mem (equals_mem_line entry)
    cases entries <;> simp [hne]

theorem map_splitPair_signed (hw : vals.Wf) :
    ((signed vals).map line).map splitPair = signed vals := by
  rw [List.map_map]
  refine (List.map_congr_left fun entry hentry => ?_).trans (List.map_id _)
  exact splitPair_line (hw.keys entry (mem_signed.mp hentry).1)

/-- Without other line feeds, the text determines the entries. -/
theorem signed_injective (hw : vals.Wf) (hw' : vals'.Wf) (hfree : LineFree vals)
    (hfree' : LineFree vals') (h : dataCheckString vals = dataCheckString vals') :
    signed vals = signed vals' := by
  by_cases hnil : signed vals = []
  · rw [hnil, dataCheckString_eq_nil.mp (h ▸ dataCheckString_eq_nil.mpr hnil)]
  · have hnil' : signed vals' ≠ [] := fun hn =>
      hnil (dataCheckString_eq_nil.mp (h ▸ dataCheckString_eq_nil.mpr hn))
    rw [← map_splitPair_signed hw, ← splitOn_dataCheckString hfree hnil, h,
      splitOn_dataCheckString hfree' hnil', map_splitPair_signed hw']

/-- What a key stands for is decided by the signed entries. -/
theorem lookup_eq_some (hw : vals.Wf) {k v : Str} (hk : k ≠ hashKey) :
    vals.lookup k = some v ↔ (k, v) ∈ signed vals := by
  rw [mem_signed, and_iff_left hk]
  refine ⟨fun h => ?_, lookup_of_mem hw.nodup⟩
  obtain ⟨l, r, rfl, -⟩ := List.lookup_eq_some_iff.mp h
  exact List.mem_append_right l List.mem_cons_self

/-! ### The signature -/

/-- What the validation goes through before it compares. -/
theorem validate_eq_ok {hexdigest : List ℕ → Str} {valid : Bool} :
    validateMiniAppData hexdigest data = .ok (valid, vals) ↔
      parse data = some vals ∧ ∃ message hash, encode (dataCheckString vals) = some message ∧
        vals.lookup hashKey = some hash ∧ valid = decide (hexdigest message = hash) := by
  rw [validateMiniAppData]
  constructor
  · intro h
    split at h
    · cases h
    next vals' hparse =>
      split at h
      · cases h
      next message hencode =>
        split at h
        · cases h
        next hash hlookup =>
          obtain ⟨rfl, rfl⟩ := Prod.mk.inj (Except.ok.inj h)
          exact ⟨hparse, message, hash, hencode, hlookup, rfl⟩
  · rintro ⟨hparse, message, hash, hencode, hlookup, rfl⟩
    simp only [hparse, hencode, hlookup]

/-- Data that is accepted with one hash has been signed as one text, and when neither dictionary
has a line feed inside an entry, the dictionaries agree in everything but the hash. -/
theorem signature_authenticates (hexdigest : List ℕ → Str) (hinj : Function.Injective hexdigest)
    (data data' : Str) (vals vals' : Dict)
    (h : validateMiniAppData hexdigest data = .ok (true, vals))
    (h' : validateMiniAppData hexdigest data' = .ok (true, vals'))
    (hhash : vals.lookup hashKey = vals'.lookup hashKey) :
    dataCheckString vals = dataCheckString vals' ∧
      (LineFree vals → LineFree vals' → ∀ k, k ≠ hashKey → vals.lookup k = vals'.lookup k) := by
  obtain ⟨hparse, message, hash, hencode, hlookup, hvalid⟩ := validate_eq_ok.mp h
  obtain ⟨hparse', message', hash', hencode', hlookup', hvalid'⟩ := validate_eq_ok.mp h'
  have hw := wf_of_parse hparse
  have hw' := wf_of_parse hparse'
  obtain rfl : hash = hash' := Option.some.inj (by rw [← hlookup, hhash, hlookup'])
  obtain rfl : message = message' :=
    hinj ((of_decide_eq_true hvalid.symm).trans (of_decide_eq_true hvalid'.symm).symm)
  have hsame : dataCheckString vals = dataCheckString vals' := encode_injective hencode hencode'
  refine ⟨hsame, fun hfree hfree' k hk => Option.ext fun v => ?_⟩
  rw [lookup_eq_some hw hk, lookup_eq_some hw' hk, signed_injective hw hw' hfree hfree' hsame]

/-! ### A line feed inside a value -/

/-- The signature of `a=1`, `b=2` under the key of an empty token. -/
def sampleDigits : Str :=
  [5, 1, 1, 7, 2, 7, 7, 0xc, 5, 0, 0xb, 2, 0xa, 7, 0, 9, 3, 0xe, 0xc, 0xf, 4, 6, 2, 0, 7, 0xc, 9,
      2, 3, 5, 0xb, 9, 5, 0, 1, 0xb, 0xe, 5, 0xf, 0xc, 8, 2, 7, 0xc, 0xe, 0xd, 4, 0xa, 0xe, 0xe, 0,
      0xd, 6, 2, 0xa, 7, 0xc, 4, 6, 1, 8, 8, 4, 2].map fun d =>
      if d < 10 then 0x30 + d else 0x57 + d

/-- Signatures that are distinct, among them this one. -/
def sampleDigest (message : List ℕ) : Str :=
  if message = [0x61, equals, 0x31, lineFeed, 0x62, equals, 0x32] then sampleDigits else 0 :: message

theorem sampleDigest_injective : Function.Injective sampleDigest := by
  intro m m' h
  have hne (m : List ℕ) : sampleDigits ≠ 0 :: m := fun h =>
    absurd (congrArg List.head? h) (by simp [sampleDigits])
  simp only [sampleDigest] at h
  split_ifs at h with hm hm'
  · rw [hm, hm']
  · exact absurd h (hne m')
  · exact absurd h.symm (hne m)
  · exact (List.cons_inj_right 0).mp h

/-- `a=1&b=2&hash=…`. -/
def twoEntries : Str :=
  [0x61, equals, 0x31, ampersand, 0x62, equals, 0x32, ampersand] ++ hashKey ++ equals :: sampleDigits

/-- `b=2&a=1&hash=…`. -/
def otherOrder : Str :=
  [0x62, equals, 0x32, ampersand, 0x61, equals, 0x31, ampersand] ++ hashKey ++ equals :: sampleDigits

/-- `a=1%0Ab=2&hash=…`. -/
def oneEntry : Str :=
  [0x61, equals, 0x31, 0x25, 0x30, 0x41, 0x62, equals, 0x32, ampersand] ++ hashKey ++
    equals :: sampleDigits

def twoEntriesVals : Dict := [([0x61], [0x31]), ([0x62], [0x32]), (hashKey, sampleDigits)]

def otherOrderVals : Dict := [([0x62], [0x32]), ([0x61], [0x31]), (hashKey, sampleDigits)]

def oneEntryVals : Dict :=
  [([0x61], [0x31, lineFeed, 0x62, equals, 0x32]), (hashKey, sampleDigits)]

theorem other_order_agrees :
    dataCheckString twoEntriesVals = dataCheckString otherOrderVals ∧
      (LineFree twoEntriesVals → LineFree otherOrderVals →
        ∀ k, k ≠ hashKey → twoEntriesVals.lookup k = otherOrderVals.lookup k) :=
  signature_authenticates sampleDigest sampleDigest_injective twoEntries otherOrder twoEntriesVals
    otherOrderVals (by decide) (by decide) (by decide)

/-- One signature is accepted for a dictionary with the entry `b` and for one without it. -/
theorem line_feed_hides_entry :
    Function.Injective sampleDigest ∧
      validateMiniAppData sampleDigest twoEntries = .ok (true, twoEntriesVals) ∧
      validateMiniAppData sampleDigest oneEntry = .ok (true, oneEntryVals) ∧
      twoEntriesVals.lookup hashKey = oneEntryVals.lookup hashKey ∧
      twoEntriesVals.lookup [0x62] ≠ oneEntryVals.lookup [0x62] :=
  ⟨sampleDigest_injective, by decide, by decide, by decide, by decide⟩

end LiberNovus.Auth

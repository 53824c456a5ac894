import LiberNovus.Responses.Parser

/-! Replies that contain an object. The extraction commits itself to a text by its first and
its last character: the whole reply, or else a fenced block. Only when there is no such text
are the objects looked for one by one.

Proved: the reply is usable exactly when the text that is chosen is an object, or when none is
chosen and the first object comes before any number of too many digits and any nesting that is
too deep; and what is found so has to be shallow enough to be parsed. -/

namespace LiberNovus.Responses

open Json Results

variable {F : Type} [PyFloat F] {levels : ℕ} {stack : Stack}

/-- A value can be decoded from the start of the text. -/
def Decodable (F : Type) [PyFloat F] (levels : ℕ) (t : Str) : Prop :=
  ∃ (v : Value F) (rest : Str), rawDecode levels t = .ok (v, rest)

/-- Some brace of the reply starts an object, which a decoder with enough of the stack reads. -/
def HasObject (F : Type) [PyFloat F] (raw : Str) : Prop :=
  ∃ levels a t, raw = a ++ openBrace :: t ∧ Decodable F levels (openBrace :: t)

/-- `parse_json(extract_json(raw))` is a dictionary, whose text stands in the reply. -/
def Usable (F : Type) [PyFloat F] (stack : Stack) (raw : Str) : Prop :=
  ∃ t members, extractJson F stack.extraction raw = .ok t ∧ t <:+: raw ∧
    parseJson stack.parsing t = .ok (members : List (Str × Value F))

/-- The decoder raises, and not for the reason that the text is no JSON. -/
def Stops (F : Type) [PyFloat F] (levels : ℕ) (t : Str) : Prop :=
  rawDecode (F := F) levels t = .error .digits ∨ rawDecode (F := F) levels t = .error .recursion

/-- Before a brace at which a number has too many digits, or the nesting too many levels, there
is an object. -/
def DecodesFirst (F : Type) [PyFloat F] (levels : ℕ) (raw : Str) : Prop :=
  ∀ a t, raw = a ++ openBrace :: t → Stops F levels (openBrace :: t) →
    ∃ a' t', raw = a' ++ openBrace :: t' ∧ a'.length < a.length ∧
      Decodable F levels (openBrace :: t')

/-- The first object of the reply that can be decoded. -/
def FirstObject (F : Type) [PyFloat F] (levels : ℕ) (raw t : Str) : Prop :=
  ∃ a r, raw = a ++ (t ++ r) ∧ t.head? = some openBrace ∧ IsObject F levels t ∧
    ∀ a' t', raw = a' ++ openBrace :: t' → a'.length < a.length →
      ¬ Decodable F levels (openBrace :: t')

/-- The text that the braces choose is an object. -/
structure Unambiguous (F : Type) [PyFloat F] (stack : Stack) (raw : Str) : Prop where
  whole : braced (strip raw) = true → IsObject F stack.parsing (strip raw)
  block : braced (strip raw) = false → ∀ c ∈ (fencedBodies raw).find? braced,
    IsObject F stack.parsing c
  prose : braced (strip raw) = false → (fencedBodies raw).find? braced = none →
    DecodesFirst F stack.extraction raw
  shallow : braced (strip raw) = false → (fencedBodies raw).find? braced = none →
    ∀ t, FirstObject F stack.extraction raw t → IsObject F stack.parsing t

/-! ### Brace by brace -/

/-- A text from whose first brace nothing is decoded. -/
theorem FirstObject.cons {c : ℕ} {raw t : Str}
    (hno : c = openBrace → ¬ Decodable F levels (c :: raw)) (h : FirstObject F levels raw t) :
    FirstObject F levels (c :: raw) t := by
  obtain ⟨a, r, rfl, hhead, hobject, hfirst⟩ := h
  refine ⟨c :: a, r, rfl, hhead, hobject, fun a' t' ht hlt => ?_⟩
  cases a' with
  | nil =>
    obtain ⟨rfl, rfl⟩ := List.cons_eq_cons.mp ht
    exact hno rfl
  | cons d a' =>
    obtain ⟨-, ht⟩ := List.cons_eq_cons.mp ht
    exact hfirst a' t' ht (by simpa using hlt)

theorem firstObject_of_firstDecoded {raw t : Str} (h : firstDecoded F levels raw = .ok t) :
    FirstObject F levels raw t := by
  induction raw with
  | nil => cases h
  | cons c raw ih =>
    rw [firstDecoded] at h
    split at h
    · next hc =>
      subst hc
      split at h
      · next v rest hv =>
        obtain ⟨u, hu, hsplit⟩ := reads_of_rawDecode hv
        obtain ⟨d, u, rfl, -⟩ := hu.head
        have htake : (openBrace :: raw).take ((openBrace :: raw).length - rest.length) = d :: u := by
          rw [hsplit, List.length_append, Nat.add_sub_cancel, List.take_left]
        rw [htake] at h
        cases h
        obtain ⟨rfl, -⟩ := List.cons_eq_cons.mp hsplit
        obtain ⟨members, rfl⟩ := hu.members_of_brace
        exact ⟨[], rest, hsplit, rfl, ⟨members, hu⟩, fun _ _ _ hlt => absurd hlt (Nat.not_lt_zero _)⟩
      · next hv =>
        refine (ih h).cons fun _ => ?_
        rintro ⟨v, rest, hv'⟩
        cases hv.symm.trans hv'
      · cases h
      · cases h
    · next hc => exact (ih h).cons fun he => absurd he hc

/-- There is one first object. -/
theorem FirstObject.unique {raw t t' : Str} (h : FirstObject F levels raw t)
    (h' : FirstObject F levels raw t') : t = t' := by
  obtain ⟨a, r, rfl, hhead, ⟨members, hreads⟩, hfirst⟩ := h
  obtain ⟨a', r', hsplit, hhead', ⟨members', hreads'⟩, hfirst'⟩ := h'
  obtain ⟨s, rfl⟩ := List.head?_eq_some_iff.mp hhead
  obtain ⟨s', rfl⟩ := List.head?_eq_some_iff.mp hhead'
  have hle : a'.length ≤ a.length := not_lt.mp fun hlt =>
    hfirst' a (s ++ r) rfl hlt ⟨_, _, rawDecode_of_reads hreads (.inr hhead)⟩
  have hge : a.length ≤ a'.length := not_lt.mp fun hlt =>
    hfirst a' (s' ++ r') hsplit hlt ⟨_, _, rawDecode_of_reads hreads' (.inr hhead')⟩
  obtain ⟨-, htext⟩ := List.append_inj hsplit (le_antisymm hge hle)
  exact (hreads.unique hreads' hhead htext).1

/-- A first character that starts no object and at which the decoder does not stop is passed. -/
theorem decodesFirst_cons {c : ℕ} {raw : Str}
    (hok : c = openBrace → ¬ Decodable F levels (c :: raw))
    (hstops : c = openBrace → ¬ Stops F levels (c :: raw)) :
    DecodesFirst F levels (c :: raw) ↔ DecodesFirst F levels raw := by
  constructor
  · intro h a t ht hd
    obtain ⟨a', t', ht', hlt, hdec⟩ := h (c :: a) t (by rw [ht]; rfl) hd
    cases a' with
    | nil =>
      obtain ⟨rfl, rfl⟩ := List.cons_eq_cons.mp ht'
      exact absurd hdec (hok rfl)
    | cons d a' =>
      obtain ⟨rfl, rfl⟩ := List.cons_eq_cons.mp ht'
      exact ⟨a', t', rfl, by simpa using hlt, hdec⟩
  · intro h a t ht hd
    cases a with
    | nil =>
      obtain ⟨rfl, rfl⟩ := List.cons_eq_cons.mp ht
      exact absurd hd (hstops rfl)
    | cons d a =>
      obtain ⟨rfl, rfl⟩ := List.cons_eq_cons.mp ht
      obtain ⟨a', t', ht', hlt, hdec⟩ := h a t rfl hd
      exact ⟨c :: a', t', by rw [ht']; rfl, by simpa using hlt, hdec⟩

theorem hasObject_of_cons {c : ℕ} {raw : Str}
    (hok : c = openBrace → ∀ levels, ¬ Decodable F levels (c :: raw))
    (h : HasObject F (c :: raw)) : HasObject F raw := by
  obtain ⟨levels, a, t, ht, hdec⟩ := h
  cases a with
  | nil =>
    obtain ⟨rfl, rfl⟩ := List.cons_eq_cons.mp ht
    exact absurd hdec (hok rfl levels)
  | cons d a =>
    obtain ⟨rfl, rfl⟩ := List.cons_eq_cons.mp ht
    exact ⟨levels, a, t, rfl, hdec⟩

/-- The search finds an object that is there unless the decoder stops before. -/
theorem firstDecoded_iff {raw : Str} (h : HasObject F raw) :
    (∃ t, firstDecoded F levels raw = .ok t) ↔ DecodesFirst F levels raw := by
  induction raw with
  | nil =>
    obtain ⟨_, a, t, ht, -⟩ := h
    exact absurd ht (by simp)
  | cons c raw ih =>
    by_cases hc : c = openBrace
    · subst hc
      rw [firstDecoded, if_pos rfl]
      cases hv : rawDecode (F := F) levels (openBrace :: raw) with
      | ok p =>
        refine ⟨fun _ a t ht hd => ?_, fun _ => ⟨_, rfl⟩⟩
        refine ⟨[], raw, rfl, ?_, p.1, p.2, hv⟩
        rcases a with _ | ⟨d, a⟩
        · rw [ht] at hv
          rcases hd with hd | hd <;> cases hv.symm.trans hd
        · simp
      | error e =>
        have hstopped : Stops F levels (openBrace :: raw) →
            ¬ DecodesFirst F levels (openBrace :: raw) := by
          intro hstops hfirst
          obtain ⟨a', t', -, hlt, -⟩ := hfirst [] raw rfl hstops
          exact absurd hlt (by simp)
        cases e with
        | decode =>
          -- with other levels nothing is decoded here either
          have hno : ∀ levels, ¬ Decodable F levels (openBrace :: raw) := by
            rintro levels' ⟨v, rest, hv'⟩
            exact not_ok_of_decode hv _ hv'
          have hgoes : ¬ Stops F levels (openBrace :: raw) := by
            rintro (hd | hd) <;> cases hv.symm.trans hd
          rw [decodesFirst_cons (fun _ => hno levels) fun _ => hgoes]
          exact ih (hasObject_of_cons (fun _ => hno) h)
        | digits => exact iff_of_false (by simp) (hstopped (.inl hv))
        | recursion => exact iff_of_false (by simp) (hstopped (.inr hv))
    · rw [firstDecoded, if_neg hc, decodesFirst_cons (fun h => absurd h hc) fun h => absurd h hc]
      exact ih (hasObject_of_cons (fun h => absurd h hc) h)

/-! ### The reply -/

/-- A text that is read to its end is decoded. -/
theorem hasObject_of_isOk (d : ℕ) {a t : Str}
    (h : (rawDecode (F := F) d (openBrace :: t)).isOk = true) :
    HasObject F (a ++ openBrace :: t) := by
  obtain ⟨⟨v, rest⟩, hv⟩ := exists_of_isOk h
  exact ⟨d, a, t, rfl, v, rest, hv⟩

/-- A text that is chosen by its braces. -/
theorem usable_braced {raw c : Str} (hc : braced c = true) (hin : c <:+: raw)
    (h : extractJson F stack.extraction raw = .ok c) :
    Usable F stack raw ↔ IsObject F stack.parsing c := by
  rw [← parseJson_isObject hc]
  constructor
  · rintro ⟨t, members, ht, -, hparse⟩
    cases h.symm.trans ht
    exact ⟨members, hparse⟩
  · rintro ⟨members, hparse⟩
    exact ⟨c, members, h, hin, hparse⟩

/-- An object that was decoded is parsed unless it nests too deep for that. -/
theorem usable_firstDecoded {raw : Str}
    (h : extractJson F stack.extraction raw = firstDecoded F stack.extraction raw) :
    Usable F stack raw ↔
      ∃ t, firstDecoded F stack.extraction raw = .ok t ∧ IsObject F stack.parsing t := by
  constructor
  · rintro ⟨t, members, ht, -, hparse⟩
    rw [h] at ht
    obtain ⟨a, r, -, hhead, ⟨_, hobject⟩, -⟩ := firstObject_of_firstDecoded ht
    exact ⟨t, ht, (parseJson_object hhead hobject).mp ⟨members, hparse⟩⟩
  · rintro ⟨t, ht, hparsed⟩
    obtain ⟨a, r, rfl, hhead, ⟨_, hobject⟩, -⟩ := firstObject_of_firstDecoded ht
    obtain ⟨members, hparse⟩ := (parseJson_object hhead hobject).mpr hparsed
    exact ⟨t, members, h.trans ht, ⟨a, r, by simp⟩, hparse⟩

/-- A reply with an object is usable exactly when the braces lead to one. -/
theorem usable_iff_unambiguous {raw : Str} (h : HasObject F raw) :
    Usable F stack raw ↔ Unambiguous F stack raw := by
  cases hwhole : braced (strip raw) with
  | true =>
    rw [usable_braced hwhole (strip_inside raw) (by rw [extractJson, if_pos hwhole])]
    constructor
    · intro hobj
      have hno : ¬ braced (strip raw) = false := by simp [hwhole]
      exact ⟨fun _ => hobj, fun hf => absurd hf hno, fun hf => absurd hf hno, fun hf => absurd hf hno⟩
    · exact fun hu => hu.whole hwhole
  | false =>
    have hno : ¬ braced (strip raw) = true := by simp [hwhole]
    cases hfind : (fencedBodies raw).find? braced with
    | some c =>
      have hextract : extractJson F stack.extraction raw = .ok c := by
        simp only [extractJson, if_neg hno, hfind]
      rw [usable_braced (List.find?_some hfind)
        (infix_of_mem_fencedBodies (List.mem_of_find?_eq_some hfind)) hextract]
      constructor
      · intro hobj
        have hsome : ¬ (fencedBodies raw).find? braced = none := by simp [hfind]
        refine ⟨fun hw => absurd hw hno, fun _ c' hc' => ?_, fun _ hn => absurd hn hsome,
          fun _ hn => absurd hn hsome⟩
        obtain rfl := Option.some.inj (hfind.symm.trans hc')
        exact hobj
      · exact fun hu => hu.block hwhole c hfind
    | none =>
      have hextract : extractJson F stack.extraction raw = firstDecoded F stack.extraction raw := by
        simp only [extractJson, if_neg hno, hfind]
      rw [usable_firstDecoded hextract]
      constructor
      · rintro ⟨t, ht, hparsed⟩
        refine ⟨fun hw => absurd hw hno, fun _ c hc => ?_,
          fun _ _ => (firstDecoded_iff h).mp ⟨t, ht⟩, fun _ _ t' ht' => ?_⟩
        · exact absurd (hfind.symm.trans hc) (by simp)
        · exact ht'.unique (firstObject_of_firstDecoded ht) ▸ hparsed
      · intro hu
        obtain ⟨t, ht⟩ := (firstDecoded_iff h).mpr (hu.prose hwhole hfind)
        exact ⟨t, ht, hu.shallow hwhole hfind t (firstObject_of_firstDecoded ht)⟩

namespace Usable

/-- A preface, a fenced object and a trailer. -/
def fenced : Str := text "some preface\n```json\n\x7b\"themes\": [\"a\"]\x7d\n```\ntrailer"

/-- Two objects in one sentence: the braces choose the sentence. -/
def sentence : Str := text "\x7b\"a\": 1\x7d and \x7b\"b\": 2\x7d"

theorem usable_fenced : Usable Constant .typical fenced := by
  have hsplit : fenced = text "some preface\n```json\n" ++
      openBrace :: text "\"themes\": [\"a\"]\x7d\n```\ntrailer" := by decide +kernel
  have hobject : HasObject Constant fenced := hsplit ▸ hasObject_of_isOk 950 (by decide +kernel)
  have hwhole : braced (strip fenced) = false := by decide +kernel
  have hblock : (fencedBodies fenced).find? braced =
      some (text "\x7b\"themes\": [\"a\"]\x7d") := by decide +kernel
  refine (usable_iff_unambiguous hobject).mpr ⟨fun h => ?_, fun _ c hc => ?_, fun _ h => ?_,
    fun _ h => ?_⟩
  · exact absurd (h.symm.trans hwhole) (by simp)
  · obtain rfl := Option.some.inj (hblock.symm.trans hc)
    exact (parseJson_isObject (by decide +kernel)).mp (exists_of_isOk (by decide +kernel))
  · exact absurd (hblock.symm.trans h) (by simp)
  · exact absurd (hblock.symm.trans h) (by simp)

theorem sentence_unusable : HasObject Constant sentence ∧ ¬ Usable Constant .typical sentence := by
  have hsplit : sentence = [] ++ openBrace :: text "\"a\": 1\x7d and \x7b\"b\": 2\x7d" := by
    decide +kernel
  refine ⟨hsplit ▸ hasObject_of_isOk 950 (by decide +kernel), ?_⟩
  rintro ⟨t, members, hextract, -, hparse⟩
  have hchosen : (extractJson Constant Stack.typical.extraction sentence).toOption =
      some sentence := by decide +kernel
  rw [hextract] at hchosen
  obtain rfl := Option.some.inj hchosen
  have hrefused : (parseJson (F := Constant) Stack.typical.parsing sentence).isOk = false := by
    decide +kernel
  rw [hparse] at hrefused
  exact absurd hrefused (by simp [Except.isOk, Except.toBool])

end Usable

end LiberNovus.Responses

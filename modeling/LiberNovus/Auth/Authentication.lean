import LiberNovus.Auth.InitData

/-! The authentication of a request. Its body is JSON of any shape, and the data in it any
string; what is not signed should be refused with the status 401.

Proved: among the requests that are not signed, exactly those are refused so whose body cannot
be decoded, or is an object without data or with data in which every part has its sign, a hash
comes up, and what is signed can be encoded. All others end in another exception. -/

namespace LiberNovus.Auth

open Json Unquote

variable {F : Type} [PyFloat F] {Player : Type}

def initDataKey : Str := [0x69, 0x6e, 0x69, 0x74, 0x44, 0x61, 0x74, 0x61]

def userKey : Str := [0x75, 0x73, 0x65, 0x72]

def idKey : Str := [0x69, 0x64]

def usernameKey : Str := [0x75, 0x73, 0x65, 0x72, 0x6e, 0x61, 0x6d, 0x65]

/-- `HTTPException(status_code=status.HTTP_401_UNAUTHORIZED, detail="UNAUTHORIZED")`. -/
def unauthorized : Raised := .http 401 "UNAUTHORIZED"

/-! ### The function -/

/-- `bool(v)`. -/
def truthy : Value F → Bool
  | .null => false
  | .bool b => b
  | .int n => n ≠ 0
  | .float x => PyFloat.repr x ≠ [zero, dot, zero] ∧ PyFloat.repr x ≠ [minus, zero, dot, zero]
  | .str s => s ≠ []
  | .arr items => !items.isEmpty
  | .obj members => !members.isEmpty

/-- `v or w`. -/
def orElse (v w : Value F) : Value F := if truthy v then v else w

/-- `d.get(name)`. -/
def get (members : List (Str × Value F)) (name : Str) : Value F := (members.lookup name).getD .null

/-- Only a dictionary has `get`, -/
def asDict : Value F → Except Raised (List (Str × Value F))
  | .obj members => .ok members
  | _ => .error .attributeError

/-- and only a string has `split`. -/
def asText : Value F → Except Raised Str
  | .str s => .ok s
  | _ => .error .attributeError

/-- `json.loads`; a `JSONDecodeError` is a `ValueError`. -/
def loadsUser (levels : ℕ) (text : Str) : Except Raised (Value F) :=
  match loads levels text with
  | .ok v => .ok v
  | .error .recursion => .error .recursionError
  | .error _ => .error .valueError

section Authenticate

/-! `request.json()` is given by the value it returns, and by `none` when it raises; the model
`PlayerCreate` by what its construction returns or raises, and the stack by the number of
levels that the decoder may nest. -/

variable (requestJson : List ℕ → Option (Value F)) (hexdigest : List ℕ → Str) (levels : ℕ)
  (playerCreate : Value F → Value F → Except Raised Player)

/-- Behind the validation of the data. -/
def buildPlayer (body : List (Str × Value F)) (vals : Dict) : Except Raised Player := do
  let user ← loadsUser levels ((vals.lookup userKey).getD [openBrace, closeBrace])
  let user ← asDict user
  let userId := get user idKey
  if truthy userId then
    let username := orElse (orElse (get user usernameKey) (get body usernameKey)) (.str [])
    playerCreate userId username
  else .error unauthorized

/-- Behind the decoding of the body. -/
def authenticate (body : List (Str × Value F)) : Except Raised Player :=
  if truthy (get body initDataKey) then do
    let data ← asText (get body initDataKey)
    let (isValid, vals) ← validateMiniAppData hexdigest data
    if isValid then buildPlayer levels playerCreate body vals else .error unauthorized
  else .error unauthorized

def getAuthenticatedPlayerCreate (request : List ℕ) : Except Raised Player :=
  match requestJson request with
  | none => .error unauthorized
  | some body => do
    let body ← asDict body
    authenticate hexdigest levels playerCreate body

end Authenticate

/-! ### What is refused -/

/-- The request carries data with a valid signature. -/
def Signed (requestJson : List ℕ → Option (Value F)) (hexdigest : List ℕ → Str) (request : List ℕ) :
    Prop :=
  ∃ body data vals, requestJson request = some (.obj body) ∧ get body initDataKey = .str data ∧
    validateMiniAppData hexdigest data = .ok (true, vals)

/-- Data whose signature can be looked at: every part has its sign, one has the key of the hash,
and the entries beside the hash hold no lone surrogate. -/
structure Shaped (data : Str) : Prop where
  separated : ∀ s ∈ data.splitOn ampersand, equals ∈ s
  hashed : ∃ s ∈ data.splitOn ampersand, (splitPair s).1 = hashKey
  encodable : ∀ vals, parse data = some vals → ∀ entry ∈ vals, entry.1 ≠ hashKey →
    ∀ c ∈ line entry, Scalar c

/-- A request whose signature can be looked at, or that has none. -/
inductive Presentable (requestJson : List ℕ → Option (Value F)) (request : List ℕ) : Prop where
  | undecoded (h : requestJson request = none)
  | absent (body : List (Str × Value F)) (h : requestJson request = some (.obj body))
      (hdata : truthy (get body initDataKey) = false)
  | shaped (body : List (Str × Value F)) (data : Str) (h : requestJson request = some (.obj body))
      (hdata : get body initDataKey = .str data) (hshaped : Shaped data)

/-! ### Data that can be looked at -/

variable {data : Str} {vals : Dict} {hexdigest : List ℕ → Str}

theorem mem_keys_set {d : Dict} {entry : Str × Str} {k : Str} :
    k ∈ (d.set entry).map Prod.fst ↔ k = entry.1 ∨ k ∈ d.map Prod.fst := by
  rw [Dict.set]
  split
  · next hmem =>
    have hkeys : (d.map fun e => if e.1 = entry.1 then entry else e).map Prod.fst =
        d.map Prod.fst := by
      rw [List.map_map]
      refine List.map_congr_left fun e _ => ?_
      by_cases h : e.1 = entry.1 <;> simp [h]
    rw [hkeys]
    refine ⟨.inr, ?_⟩
    rintro (rfl | h)
    · exact hmem
    · exact h
  · rw [List.map_append, List.map_singleton, List.mem_append, List.mem_singleton, or_comm]

/-- The keys of the dictionary are those of the parts. -/
theorem mem_keys_parse (h : parse data = some vals) {k : Str} :
    k ∈ vals.map Prod.fst ↔ ∃ s ∈ data.splitOn ampersand, (splitPair s).1 = k := by
  obtain ⟨-, rfl⟩ : _ ∧ _ = vals := by
    simpa only [parse, Option.ite_none_right_eq_some, Option.some.injEq] using h
  generalize data.splitOn ampersand = parts
  suffices hfold : ∀ d : Dict, k ∈ ((parts.map splitPair).foldl Dict.add d).map Prod.fst ↔
      (∃ s ∈ parts, (splitPair s).1 = k) ∨ k ∈ d.map Prod.fst by
    simpa using hfold []
  induction parts with
  | nil => simp
  | cons s parts ih =>
    intro d
    rw [List.map_cons, List.foldl_cons, ih, Dict.add, mem_keys_set]
    simp only [List.exists_mem_cons_iff, eq_comm, or_assoc, or_left_comm]

theorem forall_mem_intercalate {P : ℕ → Prop} {sep : ℕ} (hsep : P sep) {ls : List Str} :
    (∀ c ∈ [sep].intercalate ls, P c) ↔ ∀ l ∈ ls, ∀ c ∈ l, P c := by
  induction ls with
  | nil => simp
  | cons l ls ih =>
    cases ls with
    | nil => simp
    | cons l' ls =>
      rw [List.intercalate_cons_cons, List.forall_mem_append, List.forall_mem_append, ih,
        List.forall_mem_singleton, List.forall_mem_cons (a := l)]
      exact ⟨fun h => ⟨h.1.1, h.2⟩, fun h => ⟨⟨h.1, hsep⟩, h.2⟩⟩

theorem encode_dataCheckString :
    (encode (dataCheckString vals)).isSome = true ↔
      ∀ entry ∈ vals, entry.1 ≠ hashKey → ∀ c ∈ line entry, Scalar c := by
  rw [encode_isSome_iff, dataCheckString, forall_mem_intercalate (by decide)]
  simp only [List.forall_mem_map, mem_signed, and_imp]

theorem exists_lookup_iff {k : Str} : (∃ v, vals.lookup k = some v) ↔ k ∈ vals.map Prod.fst := by
  constructor
  · rintro ⟨v, h⟩
    obtain ⟨l, r, rfl, -⟩ := List.lookup_eq_some_iff.mp h
    exact List.mem_map.mpr ⟨(k, v), List.mem_append_right l List.mem_cons_self, rfl⟩
  · intro h
    refine Option.ne_none_iff_exists'.mp fun hnone => ?_
    obtain ⟨entry, hmem, rfl⟩ := List.mem_map.mp h
    simpa using List.lookup_eq_none_iff.mp hnone entry hmem

/-- The validation comes to a result exactly on such data. -/
theorem exists_validate_iff :
    (∃ result, validateMiniAppData hexdigest data = .ok result) ↔ Shaped data := by
  constructor
  · rintro ⟨⟨valid, vals⟩, h⟩
    obtain ⟨hparse, message, hash, hencode, hlookup, -⟩ := validate_eq_ok.mp h
    refine ⟨?_, (mem_keys_parse hparse).mp (exists_lookup_iff.mp ⟨hash, hlookup⟩), ?_⟩
    · exact (Option.ite_none_right_eq_some.mp hparse).1
    · rintro vals' hparse'
      obtain rfl : vals = vals' := Option.some.inj (hparse.symm.trans hparse')
      exact encode_dataCheckString.mp (Option.isSome_iff_exists.mpr ⟨message, hencode⟩)
  · rintro ⟨hsep, hhash, hencodable⟩
    obtain ⟨vals, hparse⟩ : ∃ vals, parse data = some vals := ⟨_, if_pos hsep⟩
    obtain ⟨message, hencode⟩ :=
      Option.isSome_iff_exists.mp (encode_dataCheckString.mpr (hencodable vals hparse))
    obtain ⟨hash, hlookup⟩ := exists_lookup_iff.mpr ((mem_keys_parse hparse).mpr hhash)
    exact ⟨_, validate_eq_ok.mpr ⟨hparse, message, hash, hencode, hlookup, rfl⟩⟩

/-! ### The outcomes -/

section Outcomes

variable {requestJson : List ℕ → Option (Value F)} {request : List ℕ} {body : List (Str × Value F)}
  {levels : ℕ} {playerCreate : Value F → Value F → Except Raised Player}

/-- The validation has no refusal of its own. -/
theorem validate_ne_unauthorized :
    validateMiniAppData hexdigest data ≠ .error unauthorized := by
  intro h
  rw [validateMiniAppData] at h
  split at h
  · cases h
  · split at h
    · cases h
    · split at h <;> cases h

/-- Data without a valid signature is refused when the validation comes to a result. -/
theorem authenticate_str (hdata : get body initDataKey = .str data)
    (hinvalid : ∀ vals, validateMiniAppData hexdigest data ≠ .ok (true, vals)) :
    authenticate hexdigest levels playerCreate body = .error unauthorized ↔
      truthy (get body initDataKey) = false ∨ Shaped data := by
  rw [authenticate, hdata]
  by_cases htruthy : truthy (.str data : Value F) = true
  · have hshaped : (∃ result, validateMiniAppData hexdigest data = .ok result) ↔ Shaped data :=
      exists_validate_iff
    rw [if_pos htruthy, htruthy, ← hshaped]
    cases hval : validateMiniAppData hexdigest data with
    | error e =>
      have he : e ≠ unauthorized := fun he => validate_ne_unauthorized (he ▸ hval)
      simpa [asText, bind, Except.bind, hval] using he
    | ok result =>
      obtain ⟨valid, vals⟩ := result
      cases valid with
      | true => exact absurd hval (hinvalid vals)
      | false => simp [asText, bind, Except.bind, hval]
  · rw [if_neg htruthy]
    simp [htruthy]

/-- Other data is refused when it counts as none. -/
theorem authenticate_of_not_str (hdata : ∀ data, get body initDataKey ≠ .str data) :
    authenticate hexdigest levels playerCreate body = .error unauthorized ↔
      truthy (get body initDataKey) = false := by
  rw [authenticate]
  cases hv : get body initDataKey with
  | str data => exact absurd hv (hdata data)
  | _ => split <;> simp_all [asText, bind, Except.bind, unauthorized]

theorem authenticate_iff
    (hinvalid : ∀ data vals, get body initDataKey = .str data →
      validateMiniAppData hexdigest data ≠ .ok (true, vals)) :
    authenticate hexdigest levels playerCreate body = .error unauthorized ↔
      truthy (get body initDataKey) = false ∨
        ∃ data, get body initDataKey = .str data ∧ Shaped data := by
  by_cases hstr : ∃ data, get body initDataKey = .str data
  · obtain ⟨data, hdata⟩ := hstr
    rw [authenticate_str hdata fun vals => hinvalid data vals hdata]
    refine or_congr_right ⟨fun h => ⟨data, hdata, h⟩, ?_⟩
    rintro ⟨data', hdata', h⟩
    obtain rfl := Value.str.inj (hdata.symm.trans hdata')
    exact h
  · rw [authenticate_of_not_str fun data hdata => hstr ⟨data, hdata⟩]
    exact (or_iff_left fun ⟨data, hdata, _⟩ => hstr ⟨data, hdata⟩).symm

theorem presentable_iff {v : Value F} (hv : requestJson request = some v) :
    Presentable requestJson request ↔
      ∃ body, v = .obj body ∧ (truthy (get body initDataKey) = false ∨
        ∃ data, get body initDataKey = .str data ∧ Shaped data) := by
  constructor
  · intro h
    cases h with
    | undecoded hnone => rw [hnone] at hv; cases hv
    | absent body h hdata => exact ⟨body, Option.some.inj (hv.symm.trans h), .inl hdata⟩
    | shaped body data h hdata hshaped =>
      exact ⟨body, Option.some.inj (hv.symm.trans h), .inr ⟨data, hdata, hshaped⟩⟩
  · rintro ⟨body, rfl, hdata | ⟨data, hdata, hshaped⟩⟩
    · exact .absent body hv hdata
    · exact .shaped body data hv hdata hshaped

end Outcomes

/-- A request that is not signed is refused with 401 exactly when it has no data, or data whose
signature can be looked at. -/
theorem unauthorized_iff (requestJson : List ℕ → Option (Value F)) (hexdigest : List ℕ → Str)
    (levels : ℕ) (playerCreate : Value F → Value F → Except Raised Player) (request : List ℕ)
    (hsigned : ¬ Signed requestJson hexdigest request) :
    getAuthenticatedPlayerCreate requestJson hexdigest levels playerCreate request =
        .error unauthorized ↔
      Presentable requestJson request := by
  rw [getAuthenticatedPlayerCreate]
  split
  · next hnone => exact ⟨fun _ => .undecoded hnone, fun _ => rfl⟩
  · next v hv =>
    rw [presentable_iff hv]
    cases v with
    | obj body =>
      refine (authenticate_iff fun data vals hdata hvalid =>
        hsigned ⟨body, data, vals, hv, hdata, hvalid⟩).trans ⟨fun h => ⟨body, rfl, h⟩, ?_⟩
      rintro ⟨body', hbody, h⟩
      exact Value.obj.inj hbody ▸ h
    | _ => exact ⟨nofun, nofun⟩

section Samples

/-- `request.json()` on a body in ASCII. -/
def sampleJson (request : List ℕ) : Option (Value Constant) := (loads 950 request).toOption

/-- The body with a string as its data. -/
def bodyWith (data : Str) : List ℕ :=
  [openBrace, quote] ++ initDataKey ++ [quote, colon, quote] ++ data ++ [quote, closeBrace]

/-- `a=1&hash=0`. -/
def wrongHash : Str := [0x61, equals, 0x31, ampersand] ++ hashKey ++ [equals, 0x30]

/-- `a`. -/
def noSign : Str := [0x61]

theorem not_signed_bodyWith {data : Str}
    (hjson : sampleJson (bodyWith data) = some (.obj [(initDataKey, .str data)]))
    (h : ∀ vals, validateMiniAppData sampleDigest data ≠ .ok (true, vals)) :
    ¬ Signed sampleJson sampleDigest (bodyWith data) := by
  rintro ⟨body, data', vals, hbody, hdata, hvalid⟩
  obtain rfl := Value.obj.inj (Option.some.inj (hjson.symm.trans hbody))
  obtain rfl := Value.str.inj hdata
  exact h vals hvalid

theorem wrong_hash_unauthorized :
    getAuthenticatedPlayerCreate sampleJson sampleDigest 950 (fun _ _ => .ok ())
        (bodyWith wrongHash) =
      .error unauthorized := by
  have hvalid : validateMiniAppData sampleDigest wrongHash =
    .ok (false, [([0x61], [0x31]), (hashKey, [0x30])]) := by decide
  have hsigned : ¬ Signed sampleJson sampleDigest (bodyWith wrongHash) :=
    not_signed_bodyWith rfl fun vals => by rw [hvalid]; nofun
  refine (unauthorized_iff _ _ _ _ _ hsigned).mpr ?_
  exact .shaped _ wrongHash rfl rfl (exists_validate_iff.mp ⟨_, hvalid⟩)

/-- The unpacking of a part without a sign raises. -/
theorem no_sign_raises :
    ¬ Signed sampleJson sampleDigest (bodyWith noSign) ∧
      getAuthenticatedPlayerCreate sampleJson sampleDigest 950 (fun _ _ => .ok ())
          (bodyWith noSign) =
        .error .valueError := by
  have hinvalid : validateMiniAppData sampleDigest noSign = .error .valueError := by decide
  exact ⟨not_signed_bodyWith rfl fun vals => by rw [hinvalid]; nofun, by rfl⟩

end Samples

end LiberNovus.Auth

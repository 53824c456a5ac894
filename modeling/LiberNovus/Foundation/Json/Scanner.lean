import Mathlib.Data.Nat.Digits.Defs

/-! JSON values and the scanner of Python's `json` module. Text is a list of code points, so
that a string may hold a lone surrogate. A scanner returns what it has read and the rest of
the text; it fails with a decoding error, with the error of `int()` for a number of too many
digits, or with the one for more nesting than the stack of the interpreter allows. -/

namespace LiberNovus.Json

/-- Text, by its code points. -/
abbrev Str := List ℕ

/-- Texts are compared by their code points. -/
instance lawfulBEqStr : LawfulBEq Str := inferInstance

/-- The code points of a literal. -/
def text (s : String) : Str := s.toList.map Char.toNat

/-- `json.JSONDecodeError`, the `ValueError` of `int()`, and `RecursionError`. -/
inductive ScanError where
  | decode
  | digits
  | recursion
  deriving DecidableEq, Repr

/-- The numbers that have no digits. -/
inductive Constant where
  | nan | infinity | minusInfinity
  deriving DecidableEq, Repr

def Constant.text : Constant → Str
  | .nan => Json.text "NaN"
  | .infinity => Json.text "Infinity"
  | .minusInfinity => Json.text "-Infinity"

/-- Floating-point numbers: `float()` of a literal, the numbers without digits, and
`float.__repr__` as `json` writes it. -/
class PyFloat (F : Type) where
  ofText : Str → F
  ofConstant : Constant → F
  repr : F → Str

/-- The numbers without digits, for which every literal is too large. -/
instance : PyFloat Constant := ⟨fun _ => .infinity, id, Constant.text⟩

/-- A value; the members of an object are in the order of their insertion. -/
inductive Value (F : Type) where
  | null
  | bool (b : Bool)
  | int (n : ℤ)
  | float (x : F)
  | str (s : Str)
  | arr (items : List (Value F))
  | obj (members : List (Str × Value F))

/-! ### Characters -/

abbrev quote : ℕ := 0x22
abbrev comma : ℕ := 0x2c
abbrev minus : ℕ := 0x2d
abbrev dot : ℕ := 0x2e
abbrev zero : ℕ := 0x30
abbrev colon : ℕ := 0x3a
abbrev openBracket : ℕ := 0x5b
abbrev backslash : ℕ := 0x5c
abbrev closeBracket : ℕ := 0x5d
abbrev backtick : ℕ := 0x60
abbrev openBrace : ℕ := 0x7b
abbrev closeBrace : ℕ := 0x7d

/-- The white space of JSON. -/
def isWs (c : ℕ) : Bool := c == 0x20 || c == 0x09 || c == 0x0a || c == 0x0d

def skipWs (t : Str) : Str := t.dropWhile isWs

def isDigit (c : ℕ) : Bool := 0x30 ≤ c && c ≤ 0x39

/-- The value of a hexadecimal digit. -/
def hexDigit (c : ℕ) : Option ℕ :=
  if isDigit c then some (c - 0x30)
  else if 0x41 ≤ c ∧ c ≤ 0x46 then some (c - 0x37)
  else if 0x61 ≤ c ∧ c ≤ 0x66 then some (c - 0x57)
  else none

/-- The code point of `\uXXXX`. -/
def hexCode (a b c d : ℕ) : Option ℕ := do
  some (0x1000 * (← hexDigit a) + 0x100 * (← hexDigit b) + 0x10 * (← hexDigit c) + (← hexDigit d))

/-- What a backslash and one character stand for. -/
def simpleEscape (c : ℕ) : Option ℕ :=
  if c = quote ∨ c = backslash ∨ c = 0x2f then some c
  else if c = 0x62 then some 0x08
  else if c = 0x66 then some 0x0c
  else if c = 0x6e then some 0x0a
  else if c = 0x72 then some 0x0d
  else if c = 0x74 then some 0x09
  else none

/-! ### Strings -/

/-- A character of a string; `coded` is one that was written as `\uXXXX`. -/
inductive Piece where
  | plain (c : ℕ)
  | coded (c : ℕ)
  deriving DecidableEq, Repr

/-- A high and a low surrogate that are both escaped are one character. -/
def joinSurrogates : List Piece → Str
  | .coded c :: .coded d :: rest =>
    if 0xd800 ≤ c ∧ c ≤ 0xdbff ∧ 0xdc00 ≤ d ∧ d ≤ 0xdfff then
      (0x10000 + 0x400 * (c - 0xd800) + (d - 0xdc00)) :: joinSurrogates rest
    else c :: joinSurrogates (.coded d :: rest)
  | .coded c :: rest => c :: joinSurrogates rest
  | .plain c :: rest => c :: joinSurrogates rest
  | [] => []

/-- A string after its opening quote, up to and with the closing one. -/
def scanPieces : Str → Except ScanError (List Piece × Str)
  | [] => .error .decode
  | c :: rest =>
    if c = quote then .ok ([], rest)
    else if c = backslash then
      match rest with
      | [] => .error .decode
      | e :: rest =>
        if e = 0x75 then
          match rest with
          | x₁ :: x₂ :: x₃ :: x₄ :: rest =>
            match hexCode x₁ x₂ x₃ x₄ with
            | none => .error .decode
            | some n => do
              let (pieces, rest) ← scanPieces rest
              .ok (.coded n :: pieces, rest)
          | _ => .error .decode
        else
          match simpleEscape e with
          | none => .error .decode
          | some n => do
            let (pieces, rest) ← scanPieces rest
            .ok (.plain n :: pieces, rest)
    -- control characters are refused
    else if c < 0x20 then .error .decode
    else do
      let (pieces, rest) ← scanPieces rest
      .ok (.plain c :: pieces, rest)

def scanString (t : Str) : Except ScanError (Str × Str) := do
  let (pieces, rest) ← scanPieces t
  .ok (joinSurrogates pieces, rest)

/-! ### Numbers -/

/-- The digits of an integer and the rest: a zero stands alone. -/
def scanInt : Str → Option (Str × Str)
  | [] => none
  | c :: t =>
    if c = zero then some ([c], t)
    else if isDigit c then some (c :: t.takeWhile isDigit, t.dropWhile isDigit)
    else none

/-- A fraction, if one follows. -/
def scanFrac : Str → Str × Str
  | c :: d :: t =>
    if c = dot ∧ isDigit d then (c :: d :: t.takeWhile isDigit, t.dropWhile isDigit)
    else ([], c :: d :: t)
  | t => ([], t)

/-- The sign of an exponent, if there is one. -/
def scanSign : Str → Str × Str
  | c :: t => if c = 0x2b ∨ c = minus then ([c], t) else ([], c :: t)
  | [] => ([], [])

/-- An exponent, if one follows. -/
def scanExp : Str → Str × Str
  | [] => ([], [])
  | c :: t =>
    if c = 0x65 ∨ c = 0x45 then
      match (scanSign t).2 with
      | d :: t' =>
        if isDigit d then
          (c :: (scanSign t).1 ++ d :: t'.takeWhile isDigit, t'.dropWhile isDigit)
        else ([], c :: t)
      | [] => ([], c :: t)
    else ([], c :: t)

/-- The value of decimal digits. -/
def natOfText (digits : Str) : ℕ := Nat.ofDigits 10 (digits.reverse.map (· - 0x30))

/-- The digits that `int()` takes. -/
def maxStrDigits : ℕ := 4300

section Values

variable {F : Type} [PyFloat F]

/-- `parse_float` and `parse_int` of a number. -/
def ofNumber (negative : Bool) (digits frac exp : Str) : Except ScanError (Value F) :=
  let sign := if negative then [minus] else []
  if frac ++ exp ≠ [] then .ok (.float (PyFloat.ofText (sign ++ digits ++ frac ++ exp)))
  else if maxStrDigits < digits.length then .error .digits
  else .ok (.int (if negative then -(natOfText digits : ℤ) else natOfText digits))

/-- `match_number`. -/
def scanNumber (t : Str) : Except ScanError (Value F × Str) :=
  let negative := t.head? = some minus
  match scanInt (if negative then t.tail else t) with
  | none => .error .decode
  | some (digits, t) => do
    let v ← ofNumber negative digits (scanFrac t).1 (scanExp (scanFrac t).2).1
    .ok (v, (scanExp (scanFrac t).2).2)

/-! ### Values -/

/-- The values that are words. -/
def keywords : List (Str × Value F) :=
  [(text "null", .null), (text "true", .bool true), (text "false", .bool false),
    (Constant.nan.text, .float (PyFloat.ofConstant .nan)),
    (Constant.infinity.text, .float (PyFloat.ofConstant .infinity)),
    (Constant.minusInfinity.text, .float (PyFloat.ofConstant .minusInfinity))]

/-- A word or a number. -/
def scanScalar (t : Str) : Except ScanError (Value F × Str) :=
  match keywords.find? fun w => w.1.isPrefixOf t with
  | some (word, v) => .ok (v, t.drop word.length)
  | none => scanNumber t

variable (scan : Str → Except ScanError (Value F × Str))

/-- The items of an array that is not empty, up to and with the closing bracket. -/
def scanItems : ℕ → Str → Except ScanError (List (Value F) × Str)
  | 0, _ => .error .decode
  | k + 1, t => do
    let (v, t) ← scan t
    match skipWs t with
    | [] => .error .decode
    | c :: t =>
      if c = closeBracket then .ok ([v], t)
      else if c = comma then do
        let (items, t) ← scanItems k (skipWs t)
        .ok (v :: items, t)
      else .error .decode

/-- A character that has to come next. -/
def expect (c : ℕ) : Str → Except ScanError Str
  | [] => .error .decode
  | d :: t => if d = c then .ok t else .error .decode

/-- The members of an object that is not empty, up to and with the closing brace. -/
def scanMembers : ℕ → Str → Except ScanError (List (Str × Value F) × Str)
  | 0, _ => .error .decode
  | k + 1, t => do
    let t ← expect quote t
    let (name, t) ← scanString t
    let t ← expect colon (skipWs t)
    let (v, t) ← scan (skipWs t)
    match skipWs t with
    | [] => .error .decode
    | c :: t =>
      if c = closeBrace then .ok ([(name, v)], t)
      else if c = comma then do
        let (members, t) ← scanMembers k (skipWs t)
        .ok ((name, v) :: members, t)
      else .error .decode

omit [PyFloat F] in
/-- `d[name] = v`: a name that is there keeps its place. -/
def setItem (members : List (Str × Value F)) (m : Str × Value F) : List (Str × Value F) :=
  if m.1 ∈ members.map Prod.fst then members.map fun m' => if m'.1 = m.1 then m else m'
  else members ++ [m]

/-- The dictionary of the members that were read. -/
def toDict (members : List (Str × Value F)) : List (Str × Value F) := members.foldl setItem []

/-- An array after its opening bracket. -/
def scanArray (k : ℕ) (t : Str) : Except ScanError (Value F × Str) :=
  match skipWs t with
  | [] => .error .decode
  | c :: t' =>
    if c = closeBracket then .ok (.arr [], t')
    else do
      let (items, t) ← scanItems scan k (c :: t')
      .ok (.arr items, t)

/-- An object after its opening brace. -/
def scanObject (k : ℕ) (t : Str) : Except ScanError (Value F × Str) :=
  match skipWs t with
  | [] => .error .decode
  | c :: t' =>
    if c = closeBrace then .ok (.obj [], t')
    else do
      let (members, t) ← scanMembers scan k (c :: t')
      .ok (.obj (toDict members), t)

/-- `scan_once`, which calls itself for the items and the members. It may enter so many arrays
and objects one within the other; the interpreter refuses the next call. -/
def scanOnce : ℕ → Str → Except ScanError (Value F × Str)
  | _, [] => .error .decode
  | levels, c :: t =>
    if c = quote then do
      let (s, t) ← scanString t
      .ok (.str s, t)
    else if c = openBrace then
      match levels with
      | 0 => .error .recursion
      | levels + 1 => scanObject (scanOnce levels) t.length t
    else if c = openBracket then
      match levels with
      | 0 => .error .recursion
      | levels + 1 => scanArray (scanOnce levels) t.length t
    else scanScalar (c :: t)

/-- `JSONDecoder.raw_decode`: the value at the start of the text, and the rest. -/
def rawDecode (levels : ℕ) (t : Str) : Except ScanError (Value F × Str) := scanOnce levels t

def loads (levels : ℕ) (t : Str) : Except ScanError (Value F) :=
  if t.head? = some 0xfeff then .error .decode
  else do
    let (v, rest) ← rawDecode levels (skipWs t)
    if skipWs rest = [] then .ok v else .error .decode

end Values

end LiberNovus.Json

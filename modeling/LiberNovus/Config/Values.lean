import LiberNovus.Prompts.Validation

/-! Values that are read from text by Python's standard library: `float` of a text, and the
scheme and the network location that `urlparse` finds in a URL. -/

namespace LiberNovus.Config

open Prompts Text

/-! ### `float` -/

def isDecimal (c : Char) : Bool := (decimalValue c).isSome

/-- The text without underscores, each of which has to stand between two digits; `afterDigit`
is said of the character before. -/
def dropUnderscores (afterDigit : Bool) : List Char → Option (List Char)
  | [] => some []
  | c :: t =>
    if c = '_' then
      if afterDigit ∧ t.head?.any isDecimal then dropUnderscores false t else none
    else (dropUnderscores (isDecimal c) t).map (c :: ·)

def ofDecimals (digits : List Char) : ℕ :=
  digits.foldl (fun n c => 10 * n + (decimalValue c).getD 0) 0

/-- The sign of a number, and the rest of its text. -/
def takeSign : List Char → Bool × List Char
  | [] => (false, [])
  | c :: t => if c = '-' then (true, t) else if c = '+' then (false, t) else (false, c :: t)

/-- The exponent at the end of a number. -/
def readExponent : List Char → Option ℤ
  | [] => some 0
  | c :: t =>
    let (negative, digits) := takeSign t
    if (c = 'e' ∨ c = 'E') ∧ digits ≠ [] ∧ digits.all isDecimal then
      some (if negative then -(ofDecimals digits : ℤ) else ofDecimals digits)
    else none

/-- A decimal number without a sign. -/
def readDecimal (t : List Char) : Option Float.Model :=
  let whole := t.takeWhile isDecimal
  let (fraction, rest) := match t.dropWhile isDecimal with
    | '.' :: rest => (rest.takeWhile isDecimal, rest.dropWhile isDecimal)
    | rest => ([], rest)
  if whole ++ fraction = [] then none
  else (readExponent rest).map fun exponent =>
    Float.Model.ofScientific (ofDecimals (whole ++ fraction)) (exponent - fraction.length)

def lowerLatin (c : Char) : Char :=
  if 0x41 ≤ c.toNat ∧ c.toNat ≤ 0x5a then Char.ofNat (c.toNat + 0x20) else c

/-- A number without a sign: infinity, NaN or a decimal number. -/
def readUnsigned (t : List Char) : Option Float.Model :=
  let name := t.map lowerLatin
  if name = "inf".toList ∨ name = "infinity".toList then
    some (Float.Model.pack (.infinity .positive))
  else if name = "nan".toList then some (Float.Model.pack .notANumber)
  else readDecimal t

/-- `float` of a text, or its `ValueError`. -/
def pyFloat (t : List Char) : Option Float.Model := do
  let t ← dropUnderscores false ((t.dropWhile isNumberSpace).rdropWhile isNumberSpace)
  let (negative, t) := takeSign t
  let x ← readUnsigned t
  some (if negative then x.neg else x)

example : pyFloat " -1_0.5e-1\n".toList = some (Float.Model.ofScientific 105 (-2)).neg ∧
    (pyFloat "+NaN".toList).any Float.Model.isNaN = true ∧ pyFloat "1__0".toList = none ∧
    pyFloat "1e".toList = none := by
  decide

/-! ### `urlparse` -/

/-- What `urlsplit` has against a network location besides unbalanced brackets: a host in
brackets that is no address, or characters that NFKC takes apart. -/
class NetlocTable where
  invalid : List Char → Option String

/-- `scheme_chars`. -/
def isSchemeChar (c : Char) : Bool :=
  ('a' ≤ c && c ≤ 'z') || ('A' ≤ c && c ≤ 'Z') || ('0' ≤ c && c ≤ '9') || c == '+' || c == '-' ||
    c == '.'

/-- The scheme of a URL in lower case, and what comes behind its colon. -/
def splitScheme (url : List Char) : List Char × List Char :=
  let start := url.takeWhile (· ≠ ':')
  let letter := start.head?.any fun c => 'a' ≤ lowerLatin c && lowerLatin c ≤ 'z'
  if ':' ∈ url ∧ letter ∧ start.all isSchemeChar then
    (start.map lowerLatin, url.drop (start.length + 1))
  else ([], url)

/-- The network location behind two slashes. -/
def netlocOf (rest : List Char) : List Char :=
  if ['/', '/'] <+: rest then (rest.drop 2).takeWhile fun c => c ≠ '/' ∧ c ≠ '?' ∧ c ≠ '#' else []

/-- `urlparse`, up to the path: the scheme and the network location. -/
def urlparse [NetlocTable] (url : List Char) : Except String (List Char × List Char) :=
  let url := (url.dropWhile fun c => c.toNat ≤ 0x20).filter (· ∉ ['\t', '\r', '\n'])
  let (scheme, rest) := splitScheme url
  let netloc := netlocOf rest
  if '[' ∈ netloc ∧ ']' ∉ netloc ∨ ']' ∈ netloc ∧ '[' ∉ netloc then .error "Invalid IPv6 URL"
  else match NetlocTable.invalid netloc with
    | some message => .error message
    | none => .ok (scheme, netloc)

end LiberNovus.Config

import LiberNovus.Foundation.Words
import LiberNovus.Session.Summary

/-! The rewriting of authoritative phrases in a reflection: seven patterns are replaced one after
the other, ignoring case, and the white space is put in order last. -/

namespace LiberNovus.Reflection

open Session Text

/-- The character table of Python, in which no white space is alphanumeric. -/
class WordTable extends CharTable where
  not_space : ∀ c, isSpace c = true → isAlnum c = false

/-- `_REPLACEMENTS`; every pattern stands between two `\b`. -/
def replacements : List (String × String) :=
  [("это значит", "это может быть связано с"),
    ("означает", "может быть связано с"),
    ("символизирует", "может быть связано с"),
    ("доказывает", "может указывать на"),
    ("указывает на", "может быть связано с"),
    ("главный смысл сна", "один из возможных ракурсов"),
    ("основное значение", "один из возможных ракурсов")]

/-- What `re.IGNORECASE` compares, as far as the letters of the patterns go: the capital letters
and the old forms of some letters are the same as the small ones. -/
def foldCase (c : Char) : Char :=
  let n := c.toNat
  if 0x410 ≤ n ∧ n ≤ 0x42f then Char.ofNat (n + 0x20)
  else if n = 0x1c80 then 'в'
  else if n = 0x1c81 then 'д'
  else if n = 0x1c82 then 'о'
  else if n = 0x1c83 then 'с'
  else if n = 0x1c84 ∨ n = 0x1c85 then 'т'
  else if n = 0x1c86 then 'ъ'
  else c

section Patterns

variable [WordTable]

/-- `\b`, in front of `text`; `inside` tells whether it has a word character behind it. -/
def boundary (inside : Bool) (text : List Char) : Bool := inside != text.head?.any isWordChar

/-- The literal of a pattern, and the `\b` at its end. -/
def matchLiteral (inside : Bool) : List Char → List Char → Bool
  | [], text => boundary inside text
  | _ :: _, [] => false
  | a :: literal, c :: text => foldCase c == a && matchLiteral (isWordChar c) literal text

/-- `re.match(r"\b…\b", text)`. -/
def matchPattern (inside : Bool) (literal text : List Char) : Bool :=
  boundary inside text && matchLiteral inside literal text

/-- `re.search(r"\b…\b", text)`. -/
def search (literal : List Char) (inside : Bool) : List Char → Bool
  | [] => matchPattern inside literal []
  | c :: text => matchPattern inside literal (c :: text) || search literal (isWordChar c) text

/-- `re.sub(r"\b…\b", replacement, text)`; `skip` characters of the last match are still to be
passed. -/
def sub (literal replacement : List Char) : ℕ → Bool → List Char → List Char
  | _, _, [] => []
  | skip + 1, _, c :: text => sub literal replacement skip (isWordChar c) text
  | 0, inside, c :: text =>
    if matchPattern inside literal (c :: text) then
      replacement ++ sub literal replacement (literal.length - 1) (isWordChar c) text
    else c :: sub literal replacement 0 (isWordChar c) text

end Patterns

/-- `re.sub(r"\s+", " ", text)`; `after` tells whether the space of the run is already there. -/
def collapse : Bool → List Char → List Char
  | _, [] => []
  | after, c :: text =>
    if isSpace c then if after then collapse true text else ' ' :: collapse true text
    else c :: collapse false text

variable [WordTable]

/-- The loop over `_REPLACEMENTS`, or over some of them. -/
def replaceAll (rules : List (String × String)) (text : List Char) : List Char :=
  rules.foldl (fun result rule => sub rule.1.toList rule.2.toList 0 false result) text

def sanitizeText (text : String) : String :=
  let result := strip text.toList
  if result = [] then ""
  else String.ofList (strip (collapse false (replaceAll replacements result)))

/-- What the sanitising is for: no pattern matches any more, and there is nothing left to do. -/
structure Sanitized (text : String) : Prop where
  complete : ∀ rule ∈ replacements, search rule.1.toList false text.toList = false
  stable : sanitizeText text = text

end LiberNovus.Reflection

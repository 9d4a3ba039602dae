import RuleBase.Json.Basic
import RuleBase.Json.Magnitude

/-!
# Reading JSON

A text is read from left to right. It fails as *truncated* where it ends too early, and as
*malformed* at the first character that no continuation could mend. Numerals beyond the range of
double-precision numbers, and arrays and objects nested too deep, count as malformed.

* `Json.Fault`, `Json.Reader`;
* `Json.quoted`, `Json.numeral`, `Json.scalar`: the values that hold no others;
* `Json.value`: a value at the start of a text, with a bound on its depth;
* `Json.read`: the value of a text, with the text that follows it.
-/

namespace RuleBase.Json

/-- Why a text is no JSON. -/
inductive Fault where
  | truncated
  | malformed
  deriving DecidableEq

/-- A reader finds a value at the start of a text and hands back the rest. -/
abbrev Reader (α : Type) : Type := List Char → Except Fault (α × List Char)

/-- The characters between the parts of a document. -/
def isSpace (c : Char) : Bool := c == ' ' || c == '\n' || c == '\r' || c == '\t'

/-- A text without the space in front. -/
def skipSpace (s : List Char) : List Char := s.dropWhile isSpace

/-! ## Strings -/

/-- The value of a hexadecimal digit. -/
def hexValue? (c : Char) : Option Nat :=
  if '0' ≤ c ∧ c ≤ '9' then some (c.toNat - 48)
  else if 'a' ≤ c ∧ c ≤ 'f' then some (c.toNat - 87)
  else if 'A' ≤ c ∧ c ≤ 'F' then some (c.toNat - 55)
  else none

/-- The code unit that four hexadecimal digits denote. A text of less than four bytes is
truncated, whatever it holds. -/
def codeUnit (s : List Char) : Except Fault Nat :=
  match (s.take 4).mapM hexValue? with
  | some [a, b, c, d] => .ok (((a * 16 + b) * 16 + c) * 16 + d)
  | _ => .error (if (String.ofList (s.take 4)).utf8ByteSize < 4 then .truncated else .malformed)

/-- The character of an escape sequence behind `\u`, and how many characters it takes. Characters
beyond the first plane are written as two code units. -/
def unicodeEscape (s : List Char) : Except Fault (Char × Nat) := do
  let high ← codeUnit s
  if high < 0xD800 ∨ 0xDFFF < high then return (Char.ofNat high, 4)
  if 0xDC00 ≤ high then throw .malformed
  match s.drop 4 with
  | [] | ['\\'] => throw .truncated
  | '\\' :: 'u' :: rest =>
    let low ← codeUnit rest
    if low < 0xDC00 ∨ 0xDFFF < low then throw .malformed
    return (Char.ofNat (0x10000 + (high - 0xD800) * 0x400 + (low - 0xDC00)), 10)
  | _ => throw .malformed

/-- The character of an escape sequence behind the backslash, and how many characters it
takes. -/
def escape : List Char → Except Fault (Char × Nat)
  | [] => .error .truncated
  | c :: rest =>
    if c = '"' ∨ c = '\\' ∨ c = '/' then .ok (c, 1)
    else if c = 'n' then .ok ('\n', 1)
    else if c = 'r' then .ok ('\r', 1)
    else if c = 't' then .ok ('\t', 1)
    else if c = 'b' then .ok (Char.ofNat 8, 1)
    else if c = 'f' then .ok (Char.ofNat 12, 1)
    else if c = 'u' then (unicodeEscape rest).map fun (d, used) => (d, used + 1)
    else .error .malformed

/-- The characters of a string up to its closing quote. -/
def stringChars (s : List Char) : Except Fault (List Char × List Char) :=
  match s with
  | [] => .error .truncated
  | c :: rest =>
    if c = '"' then .ok ([], rest)
    else if c = '\\' then do
      let (d, used) ← escape rest
      let (chars, rest) ← stringChars (rest.drop used)
      return (d :: chars, rest)
    else if c.toNat < 32 then .error .malformed
    else do
      let (chars, rest) ← stringChars rest
      return (c :: chars, rest)
termination_by s.length

/-- A string behind its opening quote. -/
def quoted : Reader String := fun s => do
  let (chars, rest) ← stringChars s
  return (String.ofList chars, rest)

/-! ## Numerals -/

/-- The digits at the start of a text. -/
def digits (s : List Char) : List Char := s.takeWhile Char.isDigit

/-- Digits of which there has to be one. -/
def someDigits (s : List Char) : Except Fault (List Char) :=
  match digits s, s with
  | [], [] => .error .truncated
  | [], _ => .error .malformed
  | ds, _ => .ok ds

/-- The whole part of a numeral: a zero, or digits that do not start with one. -/
def wholePart (s : List Char) : Except Fault (List Char) := do
  let ds ← someDigits s
  if ds.head? = some '0' ∧ 1 < ds.length then throw .malformed
  return ds

/-- The digits behind the point of a numeral, and how many characters the fraction takes. -/
def fractionPart : List Char → Except Fault (List Char × Nat)
  | '.' :: rest => do
    let ds ← someDigits rest
    return (ds, ds.length + 1)
  | _ => return ([], 0)

/-- The exponent of a numeral, and how many characters it takes. -/
def exponentPart : List Char → Except Fault (Int × Nat)
  | c :: rest => do
    if c ≠ 'e' ∧ c ≠ 'E' then return (0, 0)
    let (negative, body) := Text.splitSign rest
    let ds ← someDigits body
    let size := rest.length - body.length + ds.length + 1
    return (if negative then -(Text.valueOf ds : Int) else Text.valueOf ds, size)
  | [] => return (0, 0)

/-- A numeral. -/
def numeral : Reader Json := fun s => do
  let negative := s.head? = some '-'
  let body := if negative then s.drop 1 else s
  let whole ← wholePart body
  let afterWhole := body.drop whole.length
  let (fraction, fractionSize) ← fractionPart afterWhole
  let afterFraction := afterWhole.drop fractionSize
  let (exponent, exponentSize) ← exponentPart afterFraction
  let rest := afterFraction.drop exponentSize
  if outOfRange whole fraction exponent then throw .malformed
  let n := Text.valueOf whole
  if fractionSize + exponentSize = 0 ∧ ¬(negative ∧ n = 0) then
    return (.int (if negative then -(n : Int) else n), rest)
  return (.real (String.ofList (s.take (s.length - rest.length))), rest)

/-! ## Values -/

/-- The rest of a word that has to follow. -/
def word (expected : List Char) (result : Json) : Reader Json := fun s =>
  match expected, s with
  | [], s => .ok (result, s)
  | _ :: _, [] => .error .truncated
  | e :: more, c :: rest => if c = e then word more result rest else .error .malformed

/-- A value that holds no others. -/
def scalar : Reader Json
  | [] => .error .truncated
  | c :: rest =>
    if c = '"' then (quoted rest).map fun (s, rest) => (.string s, rest)
    else if c = '-' ∨ c.isDigit then numeral (c :: rest)
    else if c = 'n' then word "ull".toList .null rest
    else if c = 't' then word "rue".toList (.bool true) rest
    else if c = 'f' then word "alse".toList (.bool false) rest
    else .error .malformed

/-- Items joined by commas, up to a closing bracket. No text holds more items than
characters. -/
def sequence {α : Type} (item : Reader α) (close : Char) : Nat → Reader (List α)
  | 0, _ => .error .truncated
  | bound + 1, s => do
    let (first, rest) ← item s
    match skipSpace rest with
    | [] => throw .truncated
    | c :: rest =>
      if c = close then return ([first], rest)
      else if c = ',' then
        let (others, rest) ← sequence item close bound rest
        return (first :: others, rest)
      else throw .malformed

/-- What stands in brackets: nothing, or items joined by commas. -/
def bracketed {α : Type} (item : Reader α) (close : Char) : Reader (List α) := fun s =>
  match skipSpace s with
  | [] => .error .truncated
  | c :: rest => if c = close then .ok ([], rest) else sequence item close s.length (c :: rest)

/-- A name and a value, joined by a colon. -/
def member (value : Reader Json) : Reader (String × Json) := fun s =>
  match skipSpace s with
  | [] => .error .truncated
  | '"' :: rest => do
    let (name, rest) ← quoted rest
    match skipSpace rest with
    | [] => throw .truncated
    | ':' :: rest =>
      let (content, rest) ← value rest
      return ((name, content), rest)
    | _ => throw .malformed
  | _ => .error .malformed

/-- A value in which at most so many arrays and objects are nested. -/
def value : Nat → Reader Json
  | 0, s => scalar (skipSpace s)
  | depth + 1, s =>
    match skipSpace s with
    | '[' :: rest => do
      let (items, rest) ← bracketed (value depth) ']' rest
      return (.array items, rest)
    | '{' :: rest => do
      let (members, rest) ← bracketed (member (value depth)) '}' rest
      return (.object members, rest)
    | s => scalar s

/-- A text that holds one value and nothing else. -/
def read (depth : Nat) (text : String) : Except Fault Json := do
  let (j, rest) ← value depth text.toList
  if skipSpace rest = [] then return j else throw .malformed

end RuleBase.Json

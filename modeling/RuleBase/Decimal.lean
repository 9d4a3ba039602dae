import RuleBase.Text.Numeral

/-!
# Decimals

A decimal is a number of at most 96 bits with up to 28 of its digits behind the point. It
remembers how many digits were written behind the point, so `1.50` and `1.5` differ.

* `Decimal`, `Decimal.display`;
* `Decimal.plain?`: a decimal in positional notation. Digits beyond the capacity are rounded off;
* `Decimal.read?`: in positional notation, or with a power of ten behind an `e`.
-/

namespace RuleBase

/-- The number `mantissa / 10 ^ scale`, with a sign. -/
structure Decimal where
  negative : Bool
  mantissa : Nat
  scale : Nat
  deriving DecidableEq

namespace Decimal

/-- Mantissas stay below this bound. -/
def mantissaBound : Nat := 79228162514264337593543950336

/-- No more digits than these stand behind the point. -/
def maxScale : Nat := 28

/-- A decimal in positional notation, with all the digits of its scale. -/
def display (d : Decimal) : String :=
  let digits := Text.padded (d.scale + 1) d.mantissa
  let whole := digits.take (digits.length - d.scale)
  let fraction := digits.drop (digits.length - d.scale)
  String.ofList ((if d.negative then ['-'] else []) ++ whole ++
    (if d.scale = 0 then [] else '.' :: fraction))

/-! ## Positional notation -/

/-- Rounds by the first digit that is left out. A mantissa that grows out of its bound gives up
one digit more, which fails if there is none behind the point. -/
def roundAt (mantissa scale : Nat) (next : Char) : Option (Nat × Nat) :=
  if Text.digitValue next < 5 then some (mantissa, scale)
  else if mantissa + 1 < mantissaBound then some (mantissa + 1, scale)
  else if scale = 0 then none
  else some ((mantissa + 5) / 10, scale - 1)

/-- A mantissa is short if another digit is sure to leave it below `2 ^ 64`. -/
def shortBound : Nat := 1844674407370954906

/-- Takes digits behind the point as long as the capacity lasts, and rounds by the next. A separator
is passed over; but right behind the last place of a mantissa that was short until then, it cuts the
number off there. -/
def takeFraction (mantissa scale : Nat) : List Char → Option (Nat × Nat)
  | [] => some (mantissa, scale)
  | c :: rest =>
    if c = '_' then
      if scale = maxScale ∧ mantissa / 10 < shortBound then some (mantissa, scale)
      else takeFraction mantissa scale rest
    else
      let longer := 10 * mantissa + Text.digitValue c
      if scale < maxScale ∧ longer < mantissaBound then takeFraction longer (scale + 1) rest
      else roundAt mantissa scale c

/-- Whether a part of a numeral has only digits, and `_` to separate them. -/
def isPart (part : List Char) : Bool := part.all fun c => c.isDigit || c == '_'

/-- A decimal in positional notation: a sign, digits with at most one point, and `_` anywhere
behind the first digit. A zero has no sign. -/
def plain? (text : List Char) : Option Decimal :=
  let (negative, body) := Text.splitSign text
  let whole := body.takeWhile (· ≠ '.')
  let fraction := (body.dropWhile (· ≠ '.')).drop 1
  let start := Text.valueOf (whole.filter Char.isDigit)
  if ((whole ++ fraction).head?.map Char.isDigit).getD false && isPart whole && isPart fraction &&
      start < mantissaBound then do
    let (mantissa, scale) ← takeFraction start 0 fraction
    return ⟨negative && mantissa != 0, mantissa, scale⟩
  else none

/-! ## Powers of ten -/

/-- A number of at most 96 bits near `n / 10 ^ scale`, digits behind the point dropped as far as
the bound asks, the last one rounded with a half to the even digit. -/
def fit? (n scale : Nat) : Option (Nat × Nat) :=
  (List.range (scale + 1)).findSome? fun dropped =>
    let rounded := Text.roundHalfEven n (Text.tenTo dropped)
    if rounded < mantissaBound then some (rounded, scale - dropped) else none

/-- The zeros at the end of a fraction taken off. -/
def stripZeros (mantissa : Nat) : Nat → Nat × Nat
  | 0 => (mantissa, 0)
  | scale + 1 =>
    if mantissa % 10 = 0 then stripZeros (mantissa / 10) scale else (mantissa, scale + 1)

/-- A decimal divided by a power of ten. What the scale cannot hold is rounded off, a half away
from zero; a sign stays even if nothing else is left. -/
def shiftDown (d : Decimal) (exponent : Nat) : Decimal :=
  let scale := d.scale + exponent
  if scale ≤ maxScale then ⟨d.negative, d.mantissa, scale⟩
  else ⟨d.negative, Text.roundHalfUp d.mantissa (Text.tenTo (scale - maxScale)), maxScale⟩

/-- A decimal multiplied by a power of ten. The power is applied in steps of at most 19 digits,
each of which has to fit. -/
def shiftUp? (d : Decimal) (exponent : Nat) : Option Decimal :=
  if exponent ≤ d.scale then some ⟨d.negative, d.mantissa, d.scale - exponent⟩
  else do
    let (mantissa, scale) ← fit? (d.mantissa * Text.tenTo (min exponent 19)) d.scale
    let (mantissa, scale) ← fit? (mantissa * Text.tenTo (exponent - 19)) scale
    let (mantissa, scale) := stripZeros mantissa scale
    return ⟨d.negative, mantissa, scale⟩

/-- The exponents that are written in 32 bits and do not go beyond the largest scale. -/
def exponent? (text : List Char) : Option Nat :=
  (Text.unsigned? 4294967296 text).filter (· ≤ maxScale)

/-- A decimal in positional notation times a power of ten. -/
def scientific? (text : List Char) : Option Decimal :=
  let isMark := fun c : Char => c == 'e' || c == 'E'
  let base := text.takeWhile fun c => !isMark c
  match text.dropWhile fun c => !isMark c with
  | [] => none
  | _ :: '-' :: exponent => do return (← plain? base).shiftDown (← exponent? exponent)
  | _ :: exponent => do (← plain? base).shiftUp? (← exponent? exponent)

/-- The decimal that a text denotes, in either notation. -/
def read? (text : List Char) : Option Decimal := (plain? text).or (scientific? text)

end Decimal

end RuleBase

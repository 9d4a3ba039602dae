import RuleBase.Text.Numeral

/-!
# Magnitudes of numerals

A numeral denotes a double-precision number, which has to be finite. The digits are gathered in a
significand of 64 bits; the significand and the power of ten that belongs to it are rounded to
doubles before they are multiplied. A numeral at the end of the range can thus be out of it though
its exact value is not.

* `gather`: the significand of a run of digits;
* `nearestDouble`: the double next to a natural number;
* `overflows`: whether a significand and a power of ten make an infinite number.
-/

namespace RuleBase.Json

/-- Significands stay below this bound. -/
def significandBound : Nat := Nat.pow 2 64

/-- A significand with digits put behind it up to the first that it has no room for, and how many
digits are left over. -/
def gather (significand : Nat) : List Char → Nat × Nat
  | [] => (significand, 0)
  | c :: rest =>
    let longer := 10 * significand + Text.digitValue c
    if longer < significandBound then gather longer rest else (significand, rest.length + 1)

/-- The double that is next to a natural number, a half to the even one. -/
def nearestDouble (n : Nat) : Nat :=
  let unit := Nat.pow 2 (n.log2 - 52)
  Text.roundHalfEven n unit * unit

/-- The least number that does not round to a finite double. -/
def doubleBound : Nat := Nat.pow 2 1024 - Nat.pow 2 970

/-- The largest power of ten that is a finite double. -/
def maxExponent : Int := 308

/-- Whether a significand times a power of ten is out of the range of doubles. -/
def overflows (significand : Nat) (exponent : Int) : Bool :=
  if significand = 0 ∨ exponent < 0 then false
  else if maxExponent < exponent then true
  else doubleBound ≤ nearestDouble significand * nearestDouble (Text.tenTo exponent.toNat)

/-- Whether a numeral with the given digits on both sides of its point is out of the range of
doubles. Digits of the whole part that the significand has no room for count as powers of ten. -/
def outOfRange (whole fraction : List Char) (exponent : Int) : Bool :=
  let (significand, scaled) := gather 0 whole
  let (significand, dropped) := gather significand fraction
  overflows significand (exponent + scaled + dropped - fraction.length)

@[simp]
theorem overflows_zero (exponent : Int) : overflows 0 exponent = false := by
  simp [overflows]

end RuleBase.Json

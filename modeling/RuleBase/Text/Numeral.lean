/-!
# Numerals

Reading and writing numbers in decimal digits.

* `valueOf`: the number that a run of digits denotes; `digits`: the digits of a number, and
  `padded`: the same with zeros in front up to a width;
* `splitSign`, `natural?`, `integer?`, `unsigned?`: the numerals that texts may hold;
* `tenTo`: powers of ten;
* `roundHalfUp`, `roundHalfEven`: quotients rounded to the nearest number.
-/

namespace RuleBase.Text

/-- The value of a digit. -/
def digitValue (c : Char) : Nat := c.toNat - '0'.toNat

/-- The number that a run of digits denotes. -/
def valueOf (digits : List Char) : Nat := digits.foldl (fun n c => 10 * n + digitValue c) 0

/-- The digits of a number. -/
def digits (n : Nat) : List Char := Nat.toDigits 10 n

/-- The digits of a number, with zeros in front up to a width. -/
def padded (width n : Nat) : List Char :=
  List.replicate (width - (digits n).length) '0' ++ digits n

/-- The sign in front of a numeral, and what follows it. -/
def splitSign : List Char → Bool × List Char
  | '-' :: rest => (true, rest)
  | '+' :: rest => (false, rest)
  | text => (false, text)

/-- The number that a text of digits denotes; other texts denote none. -/
def natural? (text : List Char) : Option Nat :=
  if text ≠ [] ∧ text.all Char.isDigit then some (valueOf text) else none

/-- The number below a bound that digits, perhaps after a `+`, denote. -/
def unsigned? (bound : Nat) (text : List Char) : Option Nat :=
  let body := match text with
    | '+' :: rest => rest
    | _ => text
  (natural? body).filter (· < bound)

/-- The number that digits, perhaps after a sign, denote. -/
def integer? (text : List Char) : Option Int :=
  let (negative, body) := splitSign text
  (natural? body).map fun n => if negative then -(n : Int) else n

/-- A power of ten. -/
def tenTo (exponent : Nat) : Nat := Nat.pow 10 exponent

/-- A quotient rounded to the nearest number, a half upwards. -/
def roundHalfUp (n divisor : Nat) : Nat :=
  n / divisor + if divisor ≤ 2 * (n % divisor) then 1 else 0

/-- A quotient rounded to the nearest number, a half to the even one. -/
def roundHalfEven (n divisor : Nat) : Nat :=
  let quotient := n / divisor
  let twice := 2 * (n % divisor)
  if divisor < twice ∨ (twice = divisor ∧ quotient % 2 = 1) then quotient + 1 else quotient

end RuleBase.Text

import RuleBase.Text.Blank
import RuleBase.Text.Numeral

/-!
# Dates

Days of the proleptic Gregorian calendar, written as `27-Oct-2009`.

* `Date`, `Date.isLeapYear`, `Date.daysIn`;
* `Date.display`: the written form; `Date.iso`: year, month and day in numbers;
* `Date.read?`: the date that a text denotes.
-/

namespace RuleBase

/-- A day of the calendar. -/
structure Date where
  year : Int
  month : Nat
  day : Nat
  deriving DecidableEq

namespace Date

/-- The months as they are abbreviated. -/
def monthNames : List String :=
  ["Jan", "Feb", "Mar", "Apr", "May", "Jun", "Jul", "Aug", "Sep", "Oct", "Nov", "Dec"]

/-- Every fourth year has a leap day, of the years that end a century every fourth. -/
def isLeapYear (year : Int) : Bool :=
  year % 4 == 0 && (year % 100 != 0 || year % 400 == 0)

/-- How many days a month has. -/
def daysIn (year : Int) (month : Nat) : Nat :=
  if month = 2 then if isLeapYear year then 29 else 28
  else if month = 4 ∨ month = 6 ∨ month = 9 ∨ month = 11 then 30
  else 31

/-- The first and the last year that dates reach. -/
def firstYear : Int := -262143

@[inherit_doc firstYear]
def lastYear : Int := 262142

/-- A year in at least four digits. A year that four digits cannot show has a sign as well. -/
def yearText (year : Int) : String :=
  let digits := Text.padded 4 year.natAbs
  let sign := if year < 0 then ['-'] else if 9999 < year then ['+'] else []
  String.ofList (sign ++ digits)

/-- A date as rules write it. -/
def display (d : Date) : String :=
  String.ofList (Text.padded 2 d.day) ++ "-" ++ monthNames.getD (d.month - 1) "" ++ "-" ++
    yearText d.year

/-- A date in numbers, the year first. -/
def iso (d : Date) : String :=
  yearText d.year ++ "-" ++ String.ofList (Text.padded 2 d.month) ++ "-" ++
    String.ofList (Text.padded 2 d.day)

/-- A month name at the start of a text, in any case, and the text behind it. -/
def takeMonth? (text : List Char) : Option (Nat × List Char) :=
  let word := (text.take 3).map Char.toLower
  (monthNames.findIdx? fun name => name.toList.map Char.toLower == word).map
    fun i => (i + 1, text.drop 3)

/-- A year: up to four digits, or any number of them behind a sign. -/
def year? (text : List Char) : Option Int :=
  match text with
  | '-' :: _ | '+' :: _ => Text.integer? text
  | _ => if text.length ≤ 4 then Text.integer? text else none

/-- The date that a text denotes: day, month and year, joined by `-`, with blanks allowed before
the day and before the year. -/
def read? (text : List Char) : Option Date := do
  let text := Text.trimStart text
  let dayDigits := (text.take 2).takeWhile Char.isDigit
  let day ← Text.natural? dayDigits
  match text.drop dayDigits.length with
  | '-' :: text =>
    let (month, text) ← takeMonth? text
    match text with
    | '-' :: text =>
      let year ← year? (Text.trimStart text)
      if firstYear ≤ year ∧ year ≤ lastYear ∧ 1 ≤ day ∧ day ≤ daysIn year month then
        return ⟨year, month, day⟩
      else none
    | _ => none
  | _ => none

end Date

end RuleBase

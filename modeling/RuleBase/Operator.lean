import RuleBase.Text.Blank

/-!
# Comparison operators

The operator of a restriction is one of eleven comparisons, perhaps negated. Negation is folded
into the comparison where the language has a complementary one, so `not ==` is `!=` and `not <`
is `>=`; only `matches`, `memberOf` and `soundslike` keep a negation of their own.

* `Evaluator`, `Evaluator.symbol`, `Evaluator.complement?`;
* `Operator`, `Operator.determine?`: the operator that a written symbol and a flag denote.
-/

namespace RuleBase

/-- A comparison of a field with a value. -/
inductive Evaluator where
  | equal
  | notEqual
  | less
  | lessOrEqual
  | greater
  | greaterOrEqual
  | contains
  | excludes
  | matches
  | memberOf
  | soundsLike
  deriving DecidableEq

namespace Evaluator

/-- All comparisons. -/
def all : List Evaluator :=
  [.equal, .notEqual, .less, .lessOrEqual, .greater, .greaterOrEqual, .contains, .excludes,
    .matches, .memberOf, .soundsLike]

/-- A comparison as rules write it. -/
def symbol : Evaluator → String
  | .equal => "=="
  | .notEqual => "!="
  | .less => "<"
  | .lessOrEqual => "<="
  | .greater => ">"
  | .greaterOrEqual => ">="
  | .contains => "contains"
  | .excludes => "excludes"
  | .matches => "matches"
  | .memberOf => "memberOf"
  | .soundsLike => "soundslike"

/-- The name of a comparison in documents. -/
def name : Evaluator → String
  | .equal => "equal"
  | .notEqual => "not_equal"
  | .less => "less"
  | .lessOrEqual => "less_or_equal"
  | .greater => "greater"
  | .greaterOrEqual => "greater_or_equal"
  | .contains => "contains"
  | .excludes => "excludes"
  | .matches => "matches"
  | .memberOf => "member_of"
  | .soundsLike => "sounds_like"

/-- The comparison with the given symbol. -/
def ofSymbol? (text : List Char) : Option Evaluator :=
  all.find? fun e => e.symbol.toList == text

/-- The comparison that holds exactly when this one does not, if the language has one. -/
def complement? : Evaluator → Option Evaluator
  | .equal => some .notEqual
  | .notEqual => some .equal
  | .less => some .greaterOrEqual
  | .lessOrEqual => some .greater
  | .greater => some .lessOrEqual
  | .greaterOrEqual => some .less
  | .contains => some .excludes
  | .excludes => some .contains
  | .matches | .memberOf | .soundsLike => none

/-- Complements come in pairs. -/
theorem complement?_symm {a b : Evaluator} (h : a.complement? = some b) :
    b.complement? = some a := by
  cases a <;> cases b <;> simp_all [complement?]

end Evaluator

/-- A comparison with a flag for a negation that no other comparison expresses. -/
structure Operator where
  evaluator : Evaluator
  negated : Bool
  deriving DecidableEq

namespace Operator

/-- A comparison under a negation flag, the negation folded in where that is possible. -/
def fold (e : Evaluator) (negated : Bool) : Operator :=
  match negated, e.complement? with
  | false, _ => ⟨e, false⟩
  | true, some c => ⟨c, false⟩
  | true, none => ⟨e, true⟩

/-- A written symbol without its blanks and at most one leading `not `, and whether that was
there. -/
def unprefixed (text : List Char) : List Char × Bool :=
  let text := Text.trim text
  match "not ".toList.isPrefixOf? text with
  | some rest => (Text.trimStart rest, true)
  | none => (text, false)

/-- The operator that a written symbol denotes under a negation flag; a leading `not ` in the
symbol turns the flag round. -/
def determine? (symbol : String) (negated : Bool) : Option Operator :=
  let (text, flipped) := unprefixed symbol.toList
  (Evaluator.ofSymbol? text).map (fold · (negated ^^ flipped))

/-- An operator as it is shown. -/
def display (o : Operator) : String :=
  if o.negated then "not " ++ o.evaluator.symbol else o.evaluator.symbol

end Operator

end RuleBase

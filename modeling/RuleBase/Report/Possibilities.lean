import RuleBase.Graph.Basic
import RuleBase.Report.Table

/-!
# Lists of possibilities

One table for each rule, with a row for each of its possibilities. A row names the patterns of the
possibility with their quantifiers and with the restrictions that hold.

* `patternText`, `possibilityText`, `possibilityTable`, `possibilities`.
-/

namespace RuleBase.Report

open RuleBase.Graph

/-- A restriction with the name of its field. -/
def restrictionText (g : Graph) (r : Restriction) : String :=
  let field := (g.ofKind? Kind.field? r.field).map (·.name)
  field.getD "?" ++ " " ++ r.display

/-- The quantifier that is shown with a pattern. -/
def quantifierText (p : Pattern) : String :=
  if p.isNot then "not " else if p.isExists then "exists " else if p.isForall then "forall " else ""

/-- A possibility of a pattern; it is empty if there is no such pattern. -/
def patternText (g : Graph) (p : PatternPossibility) : String :=
  match g.ofKind? Kind.pattern? p.pattern with
  | none => ""
  | some pattern =>
    let restrictions := p.restrictions.filterMap (g.ofKind? Kind.restriction?)
    quantifierText pattern ++ pattern.name ++ "(" ++
      ", ".intercalate (restrictions.map (restrictionText g)) ++ ")"

/-- A possibility of a rule, one pattern a line. -/
def possibilityText (g : Graph) (p : RulePossibility) : String :=
  match (p.patterns.filterMap g.patternPossibility?).map (patternText g) with
  | [] => "(no patterns)"
  | patterns => "\n& ".intercalate patterns

/-- The table of a rule. -/
def possibilityTable (g : Graph) (rule : ComponentId × Rule) : Table :=
  let possibilities := g.rulePossibilitiesOf rule.1
  { header := [⟨rule.2.name ++ " (line " ++ toString rule.2.line ++ ", " ++
      toString possibilities.length ++ " possibilities)", .left⟩]
    rows := possibilities.map fun p => [⟨possibilityText g p, .left⟩] }

/-- The tables of all rules, or of those with one name. -/
def possibilities (g : Graph) (name : Option String) : String :=
  let rules := (g.ofKind Kind.rule?).filter fun r => name.all (· == r.2.name)
  String.join (rules.map fun r => (possibilityTable g r).render ++ "\n")

end RuleBase.Report

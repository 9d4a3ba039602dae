import RuleBase.Graph.Basic
import RuleBase.Report.Table

/-!
# Summaries

How much a graph holds: one row for each package with the numbers of its rules, patterns,
restrictions and rule possibilities, and the numbers of classes, fields and variables below.

* `summaryRow`, `summaryTable`, `summary`.
-/

namespace RuleBase.Report

open RuleBase.Graph

/-- The rules of a package. -/
def rulesOfPackage (g : Graph) (package : ComponentId) : List ComponentId :=
  ((g.ofKind Kind.rule?).filter (·.2.package == package)).map (·.1)

/-- The numbers of rules, patterns, restrictions and rule possibilities of a package. -/
def packageCounts (g : Graph) (package : ComponentId) : List Nat :=
  let rules := rulesOfPackage g package
  [rules.length, (rules.flatMap g.patternsOfRule).length,
    ((g.ofKind Kind.restriction?).filter fun r => rules.contains r.2.rule).length,
    (rules.flatMap g.rulePossibilitiesOf).length]

/-- The row of a package. -/
def summaryRow (g : Graph) (package : ComponentId × Package) : List Cell :=
  ⟨package.2.name, .left⟩ :: (packageCounts g package.1).map Cell.nat

/-- The table of all packages. -/
def summaryTable (g : Graph) : Table where
  header := [⟨"Package", .left⟩, ⟨"Rules", .right⟩, ⟨"Patterns", .right⟩,
    ⟨"Restrictions", .right⟩, ⟨"Rule possibilities", .right⟩]
  rows := (g.ofKind Kind.package?).map (summaryRow g)

/-- The summary of a graph that has been read from a number of files. -/
def summary (files : Nat) (g : Graph) : String :=
  "Flattened " ++ toString files ++ " files into " ++ toString g.size ++ " components\n\n" ++
    (summaryTable g).render ++ "\n\n" ++
    toString (g.ofKind Kind.className?).length ++ " classes, " ++
    toString (g.ofKind Kind.field?).length ++ " fields, " ++
    toString (g.ofKind Kind.var?).length ++ " variables\n"

end RuleBase.Report

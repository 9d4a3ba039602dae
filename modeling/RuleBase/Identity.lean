/-!
# Identities

Components and possibilities are numbered from 1 on in the order in which they come about; each of
the two has a sequence of its own. A number need not belong to anything yet.
-/

namespace RuleBase

/-- The number of a component of a graph. -/
abbrev ComponentId : Type := Nat

/-- The number of a possibility of a pattern or a rule; the two share one sequence. -/
abbrev PossibilityId : Type := Nat

/-- The number of a component as it is shown. -/
def showComponentId (id : ComponentId) : String := "#" ++ toString id

/-- The number of a possibility as it is shown. -/
def showPossibilityId (id : PossibilityId) : String := "p" ++ toString id

end RuleBase

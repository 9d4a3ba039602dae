import RuleBase.Analysis.Walk

/-!
# Lowering invokers

The expression that facts are drawn from becomes a component below its source; what an accessor
invokes one after the other becomes its children.

* `lowerInvoker`: the component of an invoker, none if its kind is not known.
-/

namespace RuleBase.Analysis

open RuleBase.Graph

/-- Adds a component and tells its type too. -/
def addTyped (parent : ComponentId) (kind : Kind) : Walk (Option Reference) := do
  return some ⟨← add (some parent) kind, kind.type⟩

mutual
/-- Lowers an invoker. -/
def lowerInvoker (limits : Limits) (site : Site) (parent : ComponentId) :
    Ast.Invoker → Walk (Option Reference)
  | .fieldAccess name argument => addTyped parent (.fieldAccess name argument)
  | .methodAccess name arguments => addTyped parent (.methodAccess name arguments)
  | .functionCall name arguments => addTyped parent (.functionCall name arguments)
  | .accessor name invokers => do
    let site ← descend limits site
    let id ← add (some parent) (.accessor name)
    lowerInvokers limits site id invokers
    return some ⟨id, .accessor⟩
  | .unknown => return none

/-- Lowers invokers one after another. -/
def lowerInvokers (limits : Limits) (site : Site) (parent : ComponentId) :
    List Ast.Invoker → Walk Unit
  | [] => return ()
  | i :: rest => do
    let _ ← lowerInvoker limits site parent i
    lowerInvokers limits site parent rest
end

end RuleBase.Analysis

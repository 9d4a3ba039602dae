import RuleBase.Graph.Tree

/-!
# Outlines

A component and everything below it, one component a line, each below its parent and indented
by the branches that lead to it.

* `describe`: the line of a component;
* `outlineLines`, `outline`.
-/

namespace RuleBase.Report

open RuleBase.Graph

/-- The name of the class, or of the field, that a variable stands for. -/
def objectName (g : Graph) (v : Variable) : String :=
  match v.objectId.bind g.get? with
  | some ⟨_, _, _, .factClass name⟩ => name
  | some ⟨_, _, _, .field f⟩ => f.className ++ "." ++ f.name
  | _ => v.objectName

/-- The quantifiers of a pattern in brackets. -/
def flagsText (p : Pattern) : String :=
  let flags := (if p.isNot then ["not"] else []) ++ (if p.isExists then ["exists"] else []) ++
    (if p.isForall then ["forall"] else [])
  if flags.isEmpty then "" else " [" ++ ", ".intercalate flags ++ "]"

/-- The sort of a restriction. -/
def operandSort : Operand → String
  | .literal .. => "literal"
  | .var .. => "variable"
  | .returnValue .. => "return value"
  | .qualified .. => "qualified identifier"

/-- What a component is. -/
def kindText (g : Graph) : Kind → String
  | .package p => "package " ++ p.name
  | .rule r =>
    "rule " ++ r.name ++ " (salience " ++ toString r.salience ++ ", line " ++ toString r.line ++ ")"
  | .pattern p =>
    let bound := match p.identifier with
      | some identifier => identifier ++ " : "
      | none => ""
    "pattern " ++ bound ++ p.name ++ flagsText p
  | .constraint c => "constraint " ++ c.fieldName
  | .restriction r => operandSort r.operand ++ " restriction " ++ r.display
  | .var v => "variable " ++ v.name ++ " -> " ++ objectName g v
  | .factClass name => "class " ++ name
  | .field f => "field " ++ f.className ++ "." ++ f.name ++ " : " ++ f.fieldType.name
  | .consequence c => "consequence " ++ c.text
  | .operator connective => connective.display
  | .eval e => "eval " ++ e.content
  | .predicate e => "predicate " ++ e.content
  | .accumulate .. => "accumulate"
  | .collect .. => "collect"
  | .supply _ => "from"
  | .fieldAccess name (some argument) => "field access " ++ name ++ "[" ++ argument ++ "]"
  | .fieldAccess name none => "field access " ++ name
  | .methodAccess name arguments => "method access " ++ name ++ "(" ++ arguments ++ ")"
  | .functionCall name arguments => "function call " ++ name ++ "(" ++ arguments ++ ")"
  | .accessor name => "accessor " ++ name

/-- The line of a component. -/
def describe (g : Graph) (c : Component) : String :=
  "#" ++ showComponentId c.id ++ " " ++ kindText g c.kind

mutual
/-- The lines of a tree: the first one starts with `first`, and all others with `others`. -/
def outlineLines (g : Graph) (first others : String) : Tree → List String
  | .node c children => (first ++ describe g c) :: outlineChildren g others children

/-- The lines of the children of a component; the last one has a mark of its own. -/
def outlineChildren (g : Graph) (margin : String) : List Tree → List String
  | [] => []
  | [t] => outlineLines g (margin ++ "└─ ") (margin ++ "   ") t
  | t :: rest =>
    outlineLines g (margin ++ "├─ ") (margin ++ "│  ") t ++ outlineChildren g margin rest
end

/-- The outline below a component, empty if there is no such component. -/
def outline (g : Graph) (id : ComponentId) : String :=
  match g.tree? id with
  | none => ""
  | some t => String.join ((outlineLines g "" "" t).map (· ++ "\n"))

end RuleBase.Report

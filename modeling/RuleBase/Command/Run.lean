import RuleBase.Analyzer
import RuleBase.Command.Arguments
import RuleBase.Command.Workspace
import RuleBase.Graph.Printer
import RuleBase.Json.Printer
import RuleBase.Report.Outline
import RuleBase.Report.Possibilities
import RuleBase.Report.Summary

/-!
# Running commands

A task adds the documents at its path to an analyzer, each as a whole, and reports on the graph.
The first document that is not added ends the run.

* `Failure`, `Failure.report`: why a run ends early;
* `readAll`, `report`, `run`.
-/

namespace RuleBase

/-- The text of an error for users. -/
def Ast.DocumentError.report : DocumentError → String
  | .shape =>
    "Invalid rule base document at line 0, column 0: " ++
      "data did not match any variant of untagged enum Document"
  | .truncated | .malformed => "Invalid rule base document"

namespace Command

/-- Why a run ends early. -/
inductive Failure where
  | path (path : String) (error : PathError)
  | load (error : LoadError)
  | noRule (name : String)
  deriving DecidableEq

/-- The text of a failure. -/
def Failure.report : Failure → String
  | .path p error =>
    "Error: cannot read " ++ p ++ ": IO error for operation on " ++ p ++ ": " ++
      error.message ++ ": " ++ error.message
  | .load (.document error) => error.report
  | .load (.analysis error) => error.report
  | .noRule name => "Error: Rule '" ++ name ++ "' not found"

/-- Adds documents one after another. -/
def readAll (a : Analyzer) : List String → Except LoadError Analyzer
  | [] => .ok a
  | text :: rest =>
    match a.addDocument text with
    | (.ok _, a) => readAll a rest
    | (.error e, _) => .error e

/-- The rules with the given name, of which there have to be some. -/
def rulesNamed (g : Graph) (name : String) : Except Failure (List ComponentId) :=
  match g.findRules name with
  | [] => .error (.noRule name)
  | rules => .ok rules

/-- What a task prints about a graph that was read from a number of files. -/
def report (files : Nat) (g : Graph) : Task → Except Failure String
  | .flatten _ true => .ok (g.toJson.pretty ++ "\n")
  | .flatten _ false => .ok (Report.summary files g)
  | .possibilities _ none => .ok (Report.possibilities g none)
  | .possibilities _ (some name) => do
    let _ ← rulesNamed g name
    return Report.possibilities g (some name)
  | .outline _ name => do return String.join ((← rulesNamed g name).map (Report.outline g))

/-- What a request prints. -/
def answer (workspace : Workspace) (request : Request) : Except Failure String := do
  let path := request.task.path
  let (name, node) ← (workspace.find path).mapError (.path path)
  let documents := node.documents name
  let limits : Limits :=
    match request.maxRulePossibilities with
    | none => {}
    | some n => { maxRulePossibilities := n }
  let a ← (readAll { limits } documents).mapError .load
  report documents.length a.graph request.task

/-- What a run leaves behind. -/
structure Outcome where
  exit : Nat := 0
  stdout : String := ""
  stderr : String := ""
  deriving DecidableEq

/-- Runs a command line on a workspace. -/
def run (workspace : Workspace) (arguments : List String) : Outcome :=
  match Request.ofArguments arguments with
  | .error .malformed => { exit := 2 }
  | .error .version => { stdout := "verifier 0.3.0\n" }
  | .error .usage => {}
  | .ok request =>
    match answer workspace request with
    | .ok text => { stdout := text }
    | .error failure => { exit := 1, stderr := failure.report ++ "\n" }

end Command

end RuleBase

import RuleBase.Analysis.Package
import RuleBase.Ast.Document

/-!
# Analyzers

An analyzer owns a graph and adds rule bases to it under its limits. A call works on the graph
itself, from a checkpoint that the graph is rolled back to if a package fails.

* `Analyzer`, `Analyzer.staged`;
* `Analyzer.addPackage`, `Analyzer.addPackages`, `Analyzer.addDocument`;
* `LoadError`: what keeps a document out.
-/

namespace RuleBase

/-- A graph, and the limits under which it is extended. -/
structure Analyzer where
  graph : Graph := {}
  limits : Limits := {}

/-- Why a document was not added. -/
inductive LoadError where
  | document (error : Ast.DocumentError)
  | analysis (error : Analysis.Error)
  deriving DecidableEq

namespace Analyzer

/-- Loads something into the graph, which is rolled back if that fails. -/
def staged {α : Type} (a : Analyzer) (body : Analysis.Loading α) :
    Except Analysis.Error α × Analyzer :=
  match body a.graph.checkpoint with
  | .ok result g => (.ok result, { a with graph := g.commit })
  | .error e g => (.error e, { a with graph := g.rollback })

/-- Adds a package and gives the number of its component. -/
def addPackage (a : Analyzer) (p : Ast.Package) : Except Analysis.Error ComponentId × Analyzer :=
  a.staged (Analysis.load a.limits p)

/-- Adds packages in their order, all or none, and gives the numbers of their components. -/
def addPackages (a : Analyzer) (ps : List Ast.Package) :
    Except Analysis.Error (List ComponentId) × Analyzer :=
  a.staged (Analysis.loadAll a.limits ps)

/-- Adds the packages of a document, all or none. -/
def addDocument (a : Analyzer) (text : String) : Except LoadError (List ComponentId) × Analyzer :=
  match Ast.readDocument text with
  | .error e => (.error (.document e), a)
  | .ok ps =>
    let (result, a) := a.addPackages ps
    (result.mapError .analysis, a)

end Analyzer

end RuleBase

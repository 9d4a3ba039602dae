import RuleBase.Analyzer
import RuleBase.Ast.Document
import RuleBase.Ast.Printer
import RuleBase.Command.Run
import RuleBase.Graph.Printer
import RuleBase.Graph.Tree
import RuleBase.Json.Printer
import RuleBase.Json.Reader
import RuleBase.Main
import RuleBase.Proofs.Analysis.Acceptance
import RuleBase.Proofs.Analysis.Children
import RuleBase.Proofs.Analysis.Collected
import RuleBase.Proofs.Analysis.Drawing
import RuleBase.Proofs.Analysis.Drawn
import RuleBase.Proofs.Analysis.Expanded
import RuleBase.Proofs.Analysis.Expansion
import RuleBase.Proofs.Analysis.Faults
import RuleBase.Proofs.Analysis.Lift
import RuleBase.Proofs.Analysis.Mirror
import RuleBase.Proofs.Analysis.Moves
import RuleBase.Proofs.Analysis.Outcome
import RuleBase.Proofs.Analysis.Placement
import RuleBase.Proofs.Analysis.Reuse
import RuleBase.Proofs.Analysis.Steps
import RuleBase.Proofs.Analysis.Undeclared
import RuleBase.Proofs.Analysis.Verdict
import RuleBase.Proofs.Analysis.Woven
import RuleBase.Proofs.Analyzer.Acceptance
import RuleBase.Proofs.Analyzer.Atomic
import RuleBase.Proofs.Analyzer.Completeness
import RuleBase.Proofs.Analyzer.Continuity
import RuleBase.Proofs.Analyzer.Document
import RuleBase.Proofs.Analyzer.Erasure
import RuleBase.Proofs.Analyzer.Grouping
import RuleBase.Proofs.Analyzer.Index
import RuleBase.Proofs.Analyzer.Limits
import RuleBase.Proofs.Analyzer.Lines
import RuleBase.Proofs.Analyzer.Negation
import RuleBase.Proofs.Analyzer.Outline
import RuleBase.Proofs.Analyzer.Paths
import RuleBase.Proofs.Analyzer.Possibilities
import RuleBase.Proofs.Analyzer.Preorder
import RuleBase.Proofs.Analyzer.Quantifiers
import RuleBase.Proofs.Analyzer.References
import RuleBase.Proofs.Analyzer.Summary
import RuleBase.Proofs.Analyzer.Tables
import RuleBase.Proofs.Analyzer.Truth
import RuleBase.Proofs.Analyzer.Typing
import RuleBase.Proofs.Analyzer.Variables
import RuleBase.Proofs.Ast.Decoding
import RuleBase.Proofs.Ast.Extent
import RuleBase.Proofs.Ast.Outline
import RuleBase.Proofs.Ast.WellFormed
import RuleBase.Proofs.Condition.Caller
import RuleBase.Proofs.Condition.Cap
import RuleBase.Proofs.Condition.Open
import RuleBase.Proofs.Condition.Place
import RuleBase.Proofs.Condition.Token
import RuleBase.Proofs.Consequence
import RuleBase.Proofs.Graph.Outline
import RuleBase.Report.Outline
import RuleBase.Report.Possibilities
import RuleBase.Report.Summary

import AssertionLint.Assertions.Report
import AssertionLint.Binding.Document
import AssertionLint.Configuration.Layers
import AssertionLint.Configuration.Render
import AssertionLint.Proofs.Analysis.Agreement
import AssertionLint.Proofs.Analysis.Cancellation
import AssertionLint.Proofs.Analysis.ClassicArguments
import AssertionLint.Proofs.Analysis.Configured
import AssertionLint.Proofs.Analysis.Distinct
import AssertionLint.Proofs.Analysis.FormatMessage
import AssertionLint.Proofs.Analysis.RewrittenCall
import AssertionLint.Proofs.Analysis.Stale
import AssertionLint.Proofs.Analysis.Trivia
import AssertionLint.Proofs.Binding.Answers
import AssertionLint.Proofs.Binding.Arguments
import AssertionLint.Proofs.Binding.DeclarationOrder
import AssertionLint.Proofs.Binding.EnclosingMembers
import AssertionLint.Proofs.Binding.LocalTypes
import AssertionLint.Proofs.Binding.PassedArray
import AssertionLint.Proofs.Binding.Scopes
import AssertionLint.Proofs.Binding.TypeScopes
import AssertionLint.Proofs.Condition.Soundness
import AssertionLint.Proofs.Constraint.SameAs
import AssertionLint.Proofs.FixAll.Batch
import AssertionLint.Proofs.FixAll.Independence
import AssertionLint.Proofs.Format.Hole
import AssertionLint.Proofs.Grammar.Bodies
import AssertionLint.Proofs.Position.Analysis
import AssertionLint.Proofs.Syntax.ArgumentText
import AssertionLint.Proofs.Syntax.Malformed
import AssertionLint.Proofs.Text.Minimal
import AssertionLint.Proofs.TypeTable.CommonType
import AssertionLint.Proofs.TypeTable.Conversion
import AssertionLint.Proofs.TypeTable.FullNames
import AssertionLint.Proofs.TypeTable.IntegerLiteral
import AssertionLint.Proofs.TypeTable.Library
import AssertionLint.Proofs.TypeTable.Supertypes
import AssertionLint.Proofs.TypeTable.Transitivity
import AssertionLint.Proofs.TypeTable.Types
import AssertionLint.Session

import LineRules.Main
import LineRules.Workshop
import LineRules.Proofs.Captures
import LineRules.Proofs.Chain
import LineRules.Proofs.Cli.Arguments
import LineRules.Proofs.Cli.Report
import LineRules.Proofs.Cli.Session
import LineRules.Proofs.Decimal
import LineRules.Proofs.HandlerTree
import LineRules.Proofs.Isolation
import LineRules.Proofs.LazyRun
import LineRules.Proofs.LineEdit
import LineRules.Proofs.Metrics
import LineRules.Proofs.Outcome
import LineRules.Proofs.PassThrough
import LineRules.Proofs.Pattern.Formula
import LineRules.Proofs.Pattern.Intervals
import LineRules.Proofs.Pattern.Laws
import LineRules.Proofs.Pattern.Parts
import LineRules.Proofs.Pattern.RangeFree
import LineRules.Proofs.Pattern.Visits
import LineRules.Proofs.Release.Choice
import LineRules.Proofs.Release.KeptText
import LineRules.Proofs.Release.Schemes
import LineRules.Proofs.Release.Shapes
import LineRules.Proofs.Release.Successive
import LineRules.Proofs.RepeatedCalls
import LineRules.Proofs.Schedule
import LineRules.Proofs.Regex.Spans
import LineRules.Proofs.Spec.Bump
import LineRules.Proofs.Spec.Changelog
import LineRules.Proofs.Spec.LastWrite
import LineRules.Proofs.Spec.MacroLine
import LineRules.Proofs.Spec.RepeatedBump
import LineRules.Proofs.Spec.StackedEntries
import LineRules.Proofs.Spec.ValueField
import LineRules.Proofs.Spec.ValueGrammar
import LineRules.Proofs.SpecFile.Failure
import LineRules.Proofs.SpecFile.IndependentEdits
import LineRules.Proofs.SpecFile.LoggedRelease
import LineRules.Proofs.SpecFile.ReadBack
import LineRules.Proofs.SpecFile.ReleaseTag
import LineRules.Proofs.SpecFile.WholeLines
import LineRules.Proofs.Splicing
import LineRules.Proofs.Store.Draft

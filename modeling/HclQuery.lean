import HclQuery.Query
import HclQuery.Sample
import HclQuery.Source
import HclQuery.Command.Run
import HclQuery.Main
import HclQuery.Proofs.Lookup.BlockPath
import HclQuery.Proofs.Lookup.FirstAttribute
import HclQuery.Proofs.Document.Grammar
import HclQuery.Proofs.Document.Reading
import HclQuery.Proofs.Document.Derivation
import HclQuery.Proofs.Token.Cutting
import HclQuery.Proofs.Token.Stopping
import HclQuery.Proofs.Token.Shape
import HclQuery.Proofs.Document.ValueText
import HclQuery.Proofs.Document.Concatenation
import HclQuery.Proofs.Query.Get
import HclQuery.Proofs.Query.ReadBack
import HclQuery.Proofs.Document.Pieces
import HclQuery.Proofs.Query.Excerpt
import HclQuery.Proofs.Token.Spacing
import HclQuery.Proofs.Token.Progress
import HclQuery.Proofs.Token.Comments
import HclQuery.Proofs.Query.Comments
import HclQuery.Proofs.Query.Failures
import HclQuery.Proofs.Document.Spacing
import HclQuery.Proofs.Text.LineBreaks
import HclQuery.Proofs.Token.QuotedLanguage
import HclQuery.Proofs.Token.LineBreaks
import HclQuery.Proofs.Document.LineBreaks
import HclQuery.Proofs.Text.Utf8
import HclQuery.Proofs.Command.Verbose
import HclQuery.Proofs.Command.Outcome
import HclQuery.Proofs.Token.HeredocLines
import HclQuery.Proofs.Document.Progress
import HclQuery.Proofs.Document.Brackets
import HclQuery.Proofs.Document.QuotedLabels
import HclQuery.Proofs.Document.SetAttributes
import HclQuery.Proofs.Query.EmptySegments
import HclQuery.Proofs.Token.QuotedScan
import HclQuery.Proofs.Document.LabelTemplates
import HclQuery.Proofs.Token.QuotedLines
import HclQuery.Proofs.Document.Building
import HclQuery.Proofs.Query.Chains
import HclQuery.Proofs.Query.Malformed
import HclQuery.Proofs.Lookup.Levels
import HclQuery.Proofs.Token.Boundaries
